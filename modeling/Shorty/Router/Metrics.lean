import Mathlib.Data.Set.Finite.Basic
import Shorty.Lib.Token
import Shorty.Router.Following

/-!
# Shorty.Router.Metrics

The route label of the HTTP metrics (`route_template` in `lib.rs`), against the route the
router takes.  The label is computed from the path once more: the test for links counts
three slashes behind a prefix that has four, and the tests for codes are made for paths
without their leading slash.  So it is the template on one parameterised route only; on
the others it is the path, and there are as many labels as codes.
-/

namespace Shorty

deriving instance DecidableEq for MethodRouter

namespace Router

open Routing

def startsWith (path text : String) : Bool := text.toList.isPrefixOf path.toList

def endsWith (path text : String) : Bool := text.toList.isSuffixOf path.toList

/-- The label of a path. -/
def routeTemplate (path : String) : String :=
  if startsWith path "/api/v1/links/" ∧ 14 < path.utf8ByteSize ∧ path.toList.count '/' = 3 then
    "/api/v1/links/{code}"
  else if startsWith path "/api/v1/links/" ∧ 14 < path.utf8ByteSize ∧
      (path = "/api/v1/links" ∨ path = "/api/v1/links/") then "/api/v1/links"
  else if path = "/healthz" then "/healthz"
  else if path = "/version" then "/version"
  else if path = "/slow" then "/slow"
  else if path = "/slow-blocking" then "/slow-blocking"
  else if path = "/stats/top" then "/stats/top"
  else if path = "/metrics" then "/metrics"
  else if startsWith path "/api/v1/links/" ∧ endsWith path "/stats" then
    "/api/v1/links/{code}/stats"
  else if 1 < path.utf8ByteSize ∧ ¬ startsWith path "/" then "/{code}"
  else if 1 < path.utf8ByteSize ∧ path.toList.all isCodeChar then "/{code}"
  else path

/-- The text a route is declared with, the routes of `/api/v1` with their prefix. -/
def template (pattern : List Segment) : String :=
  "/" ++ "/".intercalate (pattern.map fun
    | .lit text => text
    | .param => "{code}"
    | .rest => "{*rest}")

/-! ## paths and their segments -/

variable {path : String}

/-- A path is its segments, each behind a slash. -/
theorem toList_of_startsWith (h : startsWith path "/" = true) :
    path.toList = '/' :: ['/'].intercalate ((pathSegments path).map String.toList) := by
  obtain ⟨rest, hrest⟩ := List.isPrefixOf_iff_prefix.mp h
  have hlist : path.toList = [] ++ '/' :: rest := hrest.symm
  have hmap : ((rest.splitOn '/').map String.ofList).map String.toList = rest.splitOn '/' := by
    simp [Function.comp_def]
  rw [pathSegments, hlist, List.splitOn_append_cons_self, List.splitOn_nil]
  simp only [List.cons_append, List.nil_append, List.drop_succ_cons, List.drop_zero]
  rw [hmap, List.intercalate_splitOn]

/-- A path has as many slashes as segments. -/
theorem count_slash (h : startsWith path "/" = true) :
    path.toList.count '/' = (pathSegments path).length := by
  obtain ⟨rest, hrest⟩ := List.isPrefixOf_iff_prefix.mp h
  have hlen : (pathSegments path).length + 1 = (path.toList.splitOn '/').length := by
    rw [pathSegments, List.length_map, List.length_drop, Token.length_splitOn, ← hrest]
    simp
  rw [Token.length_splitOn] at hlen
  omega

/-- A path of a link has at least four segments. -/
theorem four_le_of_startsWith (h : startsWith path "/" = true)
    (hlinks : startsWith path "/api/v1/links/" = true) : 4 ≤ (pathSegments path).length := by
  have hprefix := List.isPrefixOf_iff_prefix.mp hlinks
  have hcount : "/api/v1/links/".toList.count '/' = 4 := by decide
  rw [← count_slash h, ← hcount]
  exact hprefix.sublist.count_le '/'

/-- The last segment of a path that ends with one. -/
theorem getLast?_of_endsWith (h : endsWith path "/stats" = true) :
    (pathSegments path).getLast? = some "stats" := by
  obtain ⟨pre, hpre⟩ := List.isSuffixOf_iff_suffix.mp h
  have hlist : path.toList = pre ++ '/' :: "stats".toList := hpre.symm
  have hstats : '/' ∉ "stats".toList := by decide
  rw [pathSegments, hlist, List.splitOn_append_cons_self, List.splitOn_eq_singleton hstats]
  cases hsplit : pre.splitOn '/' with
  | nil => exact absurd hsplit (List.splitOn_ne_nil '/' pre)
  | cons seg segs => simp

/-! ## labels -/

/-- A path is its own label, unless it begins as that of a link and ends as that of its
statistics. -/
theorem routeTemplate_eq (h : startsWith path "/" = true) :
    routeTemplate path =
      if startsWith path "/api/v1/links/" ∧ endsWith path "/stats" then "/api/v1/links/{code}/stats"
      else path := by
  by_cases hpage : path ∈ ["/healthz", "/version", "/slow", "/slow-blocking", "/stats/top", "/metrics"]
  · simp only [List.mem_cons, List.not_mem_nil, or_false] at hpage
    rcases hpage with rfl | rfl | rfl | rfl | rfl | rfl <;> decide
  · simp only [List.mem_cons, List.not_mem_nil, or_false, not_or] at hpage
    obtain ⟨h1, h2, h3, h4, h5, h6⟩ := hpage
    -- the prefix has four slashes already
    have hcount : ¬ (startsWith path "/api/v1/links/" ∧ 14 < path.utf8ByteSize ∧
        path.toList.count '/' = 3) := by
      rintro ⟨hlinks, _, hthree⟩
      have hfour := four_le_of_startsWith h hlinks
      rw [count_slash h] at hthree
      omega
    -- the collection has no text behind the prefix
    have hlist : ¬ (startsWith path "/api/v1/links/" ∧ 14 < path.utf8ByteSize ∧
        (path = "/api/v1/links" ∨ path = "/api/v1/links/")) := by
      rintro ⟨hlinks, hlong, rfl | rfl⟩
      · exact absurd hlinks (by decide)
      · exact absurd hlong (by decide)
    have hrelative : ¬ (1 < path.utf8ByteSize ∧ ¬ startsWith path "/") := fun hc => hc.2 h
    -- a path has its leading slash, which is no character of a code
    have hcode : ¬ (1 < path.utf8ByteSize ∧ path.toList.all isCodeChar) := by
      rintro ⟨_, hall⟩
      rw [toList_of_startsWith h, List.all_cons, Bool.and_eq_true] at hall
      exact absurd hall.1 (by decide)
    rw [routeTemplate, if_neg hcount, if_neg hlist, if_neg h1, if_neg h2, if_neg h3, if_neg h4,
      if_neg h5, if_neg h6, if_neg hrelative, if_neg hcode]

theorem routeTemplate_of_not_endsWith (h : startsWith path "/" = true)
    (hends : endsWith path "/stats" = false) : routeTemplate path = path := by
  rw [routeTemplate_eq h, if_neg (fun hc => by simp [hends] at hc)]

/-! ## parameterised routes -/

/-- The route of a link. -/
def linkRoute : List Segment := [.lit "api", .lit "v1", .lit "links", .param]

/-- The route of the statistics of a link. -/
def statsRoute : List Segment := [.lit "api", .lit "v1", .lit "links", .param, .lit "stats"]

theorem parameterised {entry : List Segment × MethodRouter} (hmem : entry ∈ buildRouter)
    (hparam : .param ∈ entry.1) :
    entry.1 = [.param] ∨ entry.1 = linkRoute ∨
      entry.1 = statsRoute := by
  have hall : ∀ entry ∈ buildRouter, .param ∈ entry.1 → entry.1 = [.param] ∨
      entry.1 = linkRoute ∨ entry.1 = statsRoute := by decide
  exact hall entry hmem hparam

/-- The handlers of a parameterised route are those of no other one. -/
theorem route_unique {entry entry' : List Segment × MethodRouter} (hmem : entry ∈ buildRouter)
    (hmem' : entry' ∈ buildRouter) (hparam : .param ∈ entry.1) (heq : entry'.2 = entry.2) :
    entry'.1 = entry.1 := by
  have hall : ∀ entry ∈ buildRouter, ∀ entry' ∈ buildRouter, .param ∈ entry.1 →
      entry'.2 = entry.2 → entry'.1 = entry.1 := by decide
  exact hall entry hmem entry' hmem' hparam heq

/-- A path that a parameterised route takes fits it. -/
theorem matches_of_dispatch {r : MethodRouter} {captures : List String} {pattern : List Segment}
    (hlookup : buildRouter.lookup (pathSegments path) = some (r, captures))
    (hmem : (pattern, r) ∈ buildRouter) (hparam : .param ∈ pattern) :
    Table.Matches pattern (pathSegments path) captures := by
  obtain ⟨pattern', hmem', hfits⟩ := Table.matches_of_lookup hlookup
  have hsame : pattern' = pattern := route_unique hmem hmem' hparam rfl
  rwa [hsame] at hfits

variable {captures : List String}

/-- The label of a redirect is its path. -/
theorem routeTemplate_redirect (hslash : startsWith path "/" = true)
    (h : Table.Matches [.param] (pathSegments path) captures) : routeTemplate path = path := by
  have hlen : (pathSegments path).length = 1 := by
    simp only [Table.matches_param_iff, Table.matches_nil_iff] at h
    obtain ⟨code, _, _, hsegments, _, _, rfl, _⟩ := h
    rw [hsegments, List.length_singleton]
  have hlinks : ¬ startsWith path "/api/v1/links/" = true := by
    intro hlinks
    have hfour := four_le_of_startsWith hslash hlinks
    omega
  rw [routeTemplate_eq hslash, if_neg (fun hc => hlinks hc.1)]

/-- A path of a link is its label, unless it is the one of the code `stats`. -/
theorem routeTemplate_link (hslash : startsWith path "/" = true)
    (h : Table.Matches linkRoute (pathSegments path) captures)
    (hstats : path ≠ "/api/v1/links/stats") : routeTemplate path = path := by
  obtain ⟨code, hsegments⟩ : ∃ code, pathSegments path = ["api", "v1", "links", code] := by
    simp only [linkRoute, Table.matches_lit_iff, Table.matches_param_iff, Table.matches_nil_iff] at h
    obtain ⟨_, hsegments, _, rfl, _, rfl, code, _, _, rfl, _, _, rfl, _⟩ := h
    exact ⟨code, hsegments⟩
  refine routeTemplate_of_not_endsWith hslash ?_
  rw [← Bool.not_eq_true]
  intro hends
  have hlast := getLast?_of_endsWith hends
  rw [hsegments] at hlast
  obtain rfl : code = "stats" := by simpa using hlast
  refine hstats ?_
  rw [← String.toList_inj, toList_of_startsWith hslash, hsegments]
  decide

/-- The statistics of a link have their template. -/
theorem routeTemplate_stats (hslash : startsWith path "/" = true)
    (h : Table.Matches statsRoute (pathSegments path) captures) :
    routeTemplate path = template statsRoute := by
  obtain ⟨code, hsegments⟩ : ∃ code, pathSegments path = ["api", "v1", "links", code, "stats"] := by
    simp only [statsRoute, Table.matches_lit_iff, Table.matches_param_iff, Table.matches_nil_iff] at h
    obtain ⟨_, hsegments, _, rfl, _, rfl, code, _, _, rfl, _, _, _, rfl, rfl, _⟩ := h
    exact ⟨code, hsegments⟩
  have hlist : path.toList = "/api/v1/links/".toList ++ code.toList ++ "/stats".toList := by
    rw [toList_of_startsWith hslash, hsegments]
    simp [List.intercalate]
  have hlinks : startsWith path "/api/v1/links/" = true := by
    rw [startsWith, hlist, List.append_assoc]
    exact List.isPrefixOf_iff_prefix.mpr (List.prefix_append _ _)
  have hends : endsWith path "/stats" = true := by
    rw [endsWith, hlist]
    exact List.isSuffixOf_iff_suffix.mpr (List.suffix_append _ _)
  rw [routeTemplate_eq hslash, if_pos ⟨hlinks, hends⟩]
  decide

/-- **Metrics labels**: the label of a path that a parameterised route takes is the
template of the route exactly if the route is that of the statistics of a link, or the
path is the template. -/
theorem routeTemplate_eq_template_iff (path : String) (hslash : startsWith path "/" = true)
    (r : MethodRouter) (captures : List String) (pattern : List Segment)
    (hlookup : buildRouter.lookup (pathSegments path) = some (r, captures))
    (hmem : (pattern, r) ∈ buildRouter) (hparam : .param ∈ pattern) :
    routeTemplate path = template pattern ↔ pattern = statsRoute ∨ path = template pattern := by
  have hfits := matches_of_dispatch hlookup hmem hparam
  rcases parameterised hmem hparam with hroute | hroute | hroute
  · obtain rfl : pattern = [.param] := hroute
    rw [routeTemplate_redirect hslash hfits]
    simp [statsRoute]
  · obtain rfl : pattern = linkRoute := hroute
    by_cases hstats : path = "/api/v1/links/stats"
    · rw [hstats]
      decide
    · rw [routeTemplate_link hslash hfits hstats]
      simp [statsRoute, linkRoute]
  · obtain rfl : pattern = statsRoute := hroute
    exact iff_of_true (routeTemplate_stats hslash hfits) (Or.inl rfl)

theorem routeTemplate_eq_template_iff_stats :
    routeTemplate "/api/v1/links/promo2026/stats" = template statsRoute ↔
      statsRoute = statsRoute ∨ "/api/v1/links/promo2026/stats" = template statsRoute :=
  routeTemplate_eq_template_iff "/api/v1/links/promo2026/stats" rfl
    ⟨true, [(.get, .getLinkStats)]⟩ ["promo2026"] statsRoute (by decide) (by decide) (by decide)

/-- The label of the redirect of a code has the code in it. -/
theorem not_routeTemplate_eq_template :
    ¬ ∀ (path : String) (r : MethodRouter) (captures : List String) (pattern : List Segment),
      startsWith path "/" = true →
      buildRouter.lookup (pathSegments path) = some (r, captures) → (pattern, r) ∈ buildRouter →
      .param ∈ pattern → routeTemplate path = template pattern := by
  intro h
  have hlabel := h "/promo2026" ⟨false, [(.get, .redirect)]⟩ ["promo2026"] [.param] (by decide)
    (by decide) (by decide) (by decide)
  exact absurd hlabel (by decide)

/-! ## how many labels there are -/

/-- The labels of the paths that parameterised routes take. -/
def labels : Set String :=
  {label | ∃ (path : String) (r : MethodRouter) (captures : List String) (pattern : List Segment),
    startsWith path "/" = true ∧ buildRouter.lookup (pathSegments path) = some (r, captures) ∧
    (pattern, r) ∈ buildRouter ∧ .param ∈ pattern ∧ routeTemplate path = label}

/-- A code of that many letters. -/
def letters (n : Nat) : String := String.ofList (List.replicate (n + 1) 'a')

theorem isCodeChar_of_mem_letters {n : Nat} : ∀ c ∈ (letters n).toList, isCodeChar c = true := by
  intro c hc
  rw [letters, String.toList_ofList] at hc
  rw [List.eq_of_mem_replicate hc]
  decide

theorem lookup_letters (n : Nat) : buildRouter.lookup (pathSegments ("/" ++ letters n)) =
    some (⟨false, [(.get, .redirect)]⟩, [letters n]) := by
  rw [pathSegments_code isCodeChar_of_mem_letters]
  refine Table.lookup_param rfl ?_ ?_
  · intro hnil
    have hlist := congrArg String.toList hnil
    simp [letters, List.replicate_succ] at hlist
  · -- every page has a letter other than `a`
    intro hmem
    have hpages : ∀ page ∈ buildRouter.literals, ¬ page.toList.all (· = 'a') = true := by decide
    refine hpages _ hmem ?_
    simp [letters]

/-- There is a label for every number of letters. -/
theorem infinite_labels : labels.Infinite := by
  refine Set.infinite_of_injective_forall_mem (f := fun n => "/" ++ letters n) ?_ ?_
  · intro n m h
    have hletters : letters n = letters m := (String.append_right_inj "/").mp h
    have hlen := congrArg (fun s : String => s.toList.length) hletters
    simpa [letters] using hlen
  · intro n
    have hslash : startsWith ("/" ++ letters n) "/" = true := by
      rw [startsWith, String.toList_append]
      exact List.isPrefixOf_iff_prefix.mpr (List.prefix_append _ _)
    have hmem : ([.param], ⟨false, [(.get, .redirect)]⟩) ∈ buildRouter := by decide
    have hfits := matches_of_dispatch (lookup_letters n) hmem (by decide)
    exact ⟨_, _, _, [.param], hslash, lookup_letters n, hmem, by decide,
      routeTemplate_redirect hslash hfits⟩

end Router

end Shorty
