import Shorty.Grpc
import Shorty.InMemory.Listing

/-!
# Shorty.Grpc.Walk

A client that follows page tokens through `ListLinks`.  A token is the cursor's
two texts around a colon, and a token that does not split in two counts as none:
the next page is the first again.  So the walk ends exactly when every token it
is given splits, which for the in-memory store means that no page ends with a
code that has a colon in it, and for the PostgreSQL store, whose timestamps have
colons of their own, that there is nothing to list.
-/

namespace Shorty

namespace Grpc

variable {R : Type} [LinkRepository R] {clock : Nat → SystemTime} {size : Int} {s : AppState R}

/-- One call of `ListLinks`; the calls of a walk happen at times of their own. -/
def fetchLinks (clock : Nat → SystemTime) (size : Int) (s : AppState R) (n : Nat)
    (token : Option String) : Option (List GetLinkResponse × Option String) :=
  match (listLinks (clock n) ⟨size, token⟩).run s with
  | (.ok response, _) => some (response.links, response.nextPageToken)
  | (.error _, _) => none

/-- A walk over an unchanged store receives some links, in order, and ends. -/
def Enumerates (clock : Nat → SystemTime) (size : Int) (s : AppState R) (links : List ShortLink) :
    Prop :=
  ∃ n, Paging.walk (fetchLinks clock size s) n none = some (links.map .ofShortLink)

/-- A call of `ListLinks` as a page of the repository. -/
theorem fetchLinks_eq (n : Nat) (token : Option String) : fetchLinks clock size s n token =
    match (LinkRepository.list (clock n) (pageSize size) (tokenCursor token) s.repo).1 with
    | some (.ok (links, next)) => some (links.map .ofShortLink, next.map cursorToken)
    | _ => none := by
  rw [fetchLinks, run_listLinks]
  cases (LinkRepository.list (clock n) (pageSize size) (tokenCursor token) s.repo).1 with
  | none => rfl
  | some page => cases page <;> rfl

/-- The cursor of a page comes back from its token exactly when neither text has
a colon. -/
theorem tokenCursor_cursorToken (cursor : String × String) :
    tokenCursor (some (cursorToken cursor)) = some cursor ↔
      ':' ∉ cursor.1.toList ∧ ':' ∉ cursor.2.toList :=
  Token.split_join_iff

theorem tokenCursor_eq_none (cursor : String × String)
    (h : ':' ∈ cursor.1.toList ∨ ':' ∈ cursor.2.toList) :
    tokenCursor (some (cursorToken cursor)) = none :=
  Token.split_join_of_mem h

/-! ## the in-memory store -/

section InMemory

variable {s : AppState InMemoryRepo}

/-- No page of a walk ends with a code that has a colon in it. -/
def TokensSplit (r : InMemoryRepo) (k : Nat) : Prop :=
  ∀ i link, r.listing[i]? = some link → k ∣ i + 1 ∨ i + 1 = r.listing.length →
    ':' ∉ link.code.toList

theorem colon_not_mem_cursorTs (link : ShortLink) : ':' ∉ link.cursorTs.toList := by
  intro hmem
  exact absurd (InMemoryRepo.isDigit_of_mem_cursorTs hmem) (by decide)

/-- A token stands for the position its page starts at. -/
def Stands (r : InMemoryRepo) (i : Nat) (token : Option String) : Prop :=
  InMemoryRepo.listStart r.listing (tokenCursor token) = i

/-- The page a token fetches, unless its end overflows. -/
theorem fetchLinks_of_stands (clock : Nat → SystemTime) (size : Int) {i : Nat}
    {token : Option String} (h : Stands s.repo i token) (n : Nat) :
    fetchLinks clock size s n token =
      if i + pageSize size < 2 ^ 64 then
        some (((s.repo.listing.map .ofShortLink).drop i).take (pageSize size),
          ((s.repo.listing.drop i).take (pageSize size)).getLast?.map
            (fun link => cursorToken (InMemoryRepo.cursorOf link)))
      else none := by
  have hlist : (LinkRepository.list (clock n) (pageSize size) (tokenCursor token) s.repo).1 =
      (s.repo.listSync (pageSize size) (tokenCursor token)).map .ok := rfl
  rw [fetchLinks_eq, hlist]
  rw [Stands] at h
  by_cases hfit : i + pageSize size < 2 ^ 64
  · rw [InMemoryRepo.listSync_eq (by rw [h]; exact hfit), h, if_pos hfit]
    simp [List.map_drop, List.map_take, Option.map_map, Function.comp_def]
  · rw [InMemoryRepo.listSync_eq_none (by rw [h]; exact hfit), if_neg hfit]
    rfl

/-- Where the token of a page stands: behind the page, or at the front if it does
not split. -/
theorem stands_token {r : InMemoryRepo} {link : ShortLink} {j : Nat} (h : r.listing[j]? = some link) :
    Stands r (if ':' ∈ link.code.toList then 0 else j + 1)
      (some (cursorToken (InMemoryRepo.cursorOf link))) := by
  have hcode : (InMemoryRepo.cursorOf link).2 = link.code := rfl
  have hts : (InMemoryRepo.cursorOf link).1 = link.cursorTs := rfl
  rw [Stands]
  by_cases hcolon : ':' ∈ link.code.toList
  · rw [if_pos hcolon, tokenCursor_eq_none (InMemoryRepo.cursorOf link) (Or.inr (hcode ▸ hcolon))]
    rfl
  · have hsplit := (tokenCursor_cursorToken (InMemoryRepo.cursorOf link)).mpr
      ⟨hts ▸ colon_not_mem_cursorTs link, hcode ▸ hcolon⟩
    rw [if_neg hcolon, hsplit, InMemoryRepo.listStart_cursorOf h]

/-- The page at a position inside the listing is not empty, and its token stands
behind it or, if it does not split, at the front. -/
theorem fetchLinks_inside (clock : Nat → SystemTime) (size : Int) {i : Nat}
    {token : Option String} (h : Stands s.repo i token) (hi : i < s.repo.listing.length)
    (hfit : i + pageSize size < 2 ^ 64) (n : Nat) :
    ∃ link next, s.repo.listing[min (i + pageSize size) s.repo.listing.length - 1]? = some link ∧
      fetchLinks clock size s n token =
        some (((s.repo.listing.map .ofShortLink).drop i).take (pageSize size), next) ∧
      Stands s.repo (if ':' ∈ link.code.toList then 0
        else min (i + pageSize size) s.repo.listing.length) next := by
  have hpos := pageSize_pos size
  have hlast : min (i + pageSize size) s.repo.listing.length - 1 < s.repo.listing.length := by omega
  have hlink := List.getElem?_eq_getElem hlast
  refine ⟨_, _, hlink, by rw [fetchLinks_of_stands clock size h, if_pos hfit], ?_⟩
  rw [Paging.getLast?_take_drop hpos hi, hlink, Option.map_some]
  have hstands := stands_token hlink
  rwa [Nat.sub_add_cancel (by omega)] at hstands

/-- Where every page's token splits, a walk enumerates the listing. -/
theorem enumerates_of_tokensSplit (hfit : s.repo.listing.length + pageSize size < 2 ^ 64)
    (h : TokensSplit s.repo (pageSize size)) : Enumerates clock size s s.repo.listing := by
  have hlen : (s.repo.listing.map GetLinkResponse.ofShortLink).length = s.repo.listing.length :=
    List.length_map ..
  refine ⟨s.repo.listing.length + 1, ?_⟩
  refine Paging.walk_eq_drop (pageSize_pos size)
    (fun i token => (pageSize size ∣ i ∨ i = s.repo.listing.length) ∧ Stands s.repo i token)
    ?_ _ 0 none (Nat.zero_le _) ⟨Or.inl (Nat.dvd_zero _), rfl⟩ (by rw [hlen]; omega)
  rintro n i token ⟨hpos, hstands⟩ hi
  rw [hlen] at hi ⊢
  by_cases hend : i = s.repo.listing.length
  · have hiter : i + pageSize size < 2 ^ 64 := by omega
    refine ⟨_, by rw [fetchLinks_of_stands clock size hstands, if_pos hiter], ?_⟩
    omega
  · have hdvd := hpos.resolve_right hend
    obtain ⟨link, next, hlink, hfetch, hnext⟩ :=
      fetchLinks_inside clock size hstands (by omega) (by omega) n
    refine ⟨next, hfetch, fun _ => ?_⟩
    have hk := pageSize_pos size
    have hcut : pageSize size ∣ min (i + pageSize size) s.repo.listing.length ∨
        min (i + pageSize size) s.repo.listing.length = s.repo.listing.length := by
      rcases Nat.le_total (i + pageSize size) s.repo.listing.length with hle | hle
      · rw [Nat.min_eq_left hle]
        exact Or.inl ((Nat.dvd_add_right hdvd).mpr (Nat.dvd_refl _))
      · exact Or.inr (Nat.min_eq_right hle)
    have hcolon : ':' ∉ link.code.toList := by
      apply h _ link hlink
      rw [Nat.sub_add_cancel (by omega)]
      exact hcut
    rw [if_neg hcolon] at hnext
    exact ⟨hcut, hnext⟩

/-- A listing whose end overflows is not enumerated: its last fetch panics. -/
theorem not_enumerates_of_overflow (hfit : ¬ s.repo.listing.length + pageSize size < 2 ^ 64)
    (links : List ShortLink) : ¬ Enumerates clock size s links := by
  rintro ⟨n, hn⟩
  rw [Paging.walk_eq_none (fun token => ∃ i ≤ s.repo.listing.length, Stands s.repo i token)
    ?_ n none ⟨0, Nat.zero_le _, rfl⟩] at hn
  · cases hn
  · rintro n token ⟨i, hi, hstands⟩
    by_cases hiter : i + pageSize size < 2 ^ 64
    · right
      obtain ⟨link, next, _, hfetch, hnext⟩ :=
        fetchLinks_inside clock size hstands (by omega) hiter n
      refine ⟨_, next, ?_, hfetch, _, ?_, hnext⟩
      · have hk := pageSize_pos size
        rw [← List.length_pos_iff, List.length_take, List.length_drop, List.length_map]
        omega
      · split <;> omega
    · left
      rw [fetchLinks_of_stands clock size hstands, if_neg hiter]

/-- A page that starts at or before a page's last item and does not end with it
ends before it. -/
theorem cut_le {k i b n : Nat} (hdvd : k ∣ i) (hi : i ≤ b) (hb : b < n)
    (hend : k ∣ b + 1 ∨ b + 1 = n) (hne : min (i + k) n - 1 ≠ b) :
    min (i + k) n ≤ b ∧ k ∣ min (i + k) n := by
  have hstep : k ∣ i + k := (Nat.dvd_add_right hdvd).mpr (Nat.dvd_refl k)
  rcases hend with hend | hend
  · have hgap : k ≤ b + 1 - i := Nat.le_of_dvd (by omega) (Nat.dvd_sub hend hdvd)
    rw [Nat.min_eq_left (by omega)] at hne ⊢
    exact ⟨by omega, hstep⟩
  · have hlt : i + k < n := by omega
    rw [Nat.min_eq_left (by omega)]
    exact ⟨by omega, hstep⟩

/-- A token that does not split sends the walk back to the first page, again and
again. -/
theorem not_enumerates_of_colon {b : Nat} {bad : ShortLink}
    (hbad : s.repo.listing[b]? = some bad)
    (hend : pageSize size ∣ b + 1 ∨ b + 1 = s.repo.listing.length)
    (hcolon : ':' ∈ bad.code.toList) (links : List ShortLink) : ¬ Enumerates clock size s links := by
  have hb : b < s.repo.listing.length := (List.getElem?_eq_some_iff.mp hbad).1
  have hk := pageSize_pos size
  rintro ⟨n, hn⟩
  rw [Paging.walk_eq_none
    (fun token => ∃ i ≤ b, pageSize size ∣ i ∧ Stands s.repo i token)
    ?_ n none ⟨0, Nat.zero_le _, Nat.dvd_zero _, rfl⟩] at hn
  · cases hn
  · rintro n token ⟨i, hi, hdvd, hstands⟩
    by_cases hiter : i + pageSize size < 2 ^ 64
    · right
      obtain ⟨link, next, hlink, hfetch, hnext⟩ :=
        fetchLinks_inside clock size hstands (by omega) hiter n
      have hne : ((s.repo.listing.map GetLinkResponse.ofShortLink).drop i).take (pageSize size) ≠
          [] := by
        rw [← List.length_pos_iff, List.length_take, List.length_drop, List.length_map]
        omega
      refine ⟨_, next, hne, hfetch, ?_⟩
      by_cases hc : ':' ∈ link.code.toList
      · rw [if_pos hc] at hnext
        exact ⟨0, Nat.zero_le b, Nat.dvd_zero _, hnext⟩
      · rw [if_neg hc] at hnext
        have hother : min (i + pageSize size) s.repo.listing.length - 1 ≠ b := by
          intro heq
          rw [heq, hbad] at hlink
          cases hlink
          exact hc hcolon
        obtain ⟨hle, hcut⟩ := cut_le hdvd hi hb hend hother
        exact ⟨_, hle, hcut, hnext⟩
    · left
      rw [fetchLinks_of_stands clock size hstands, if_neg hiter]

/-- Over the in-memory store, a walk enumerates the listing exactly when no page
ends with a code that has a colon in it and no position overflows. -/
theorem enumerates_listing_iff : Enumerates clock size s s.repo.listing ↔
    s.repo.listing.length + pageSize size < 2 ^ 64 ∧ TokensSplit s.repo (pageSize size) := by
  constructor
  · intro h
    refine ⟨Classical.byContradiction (fun hfit => not_enumerates_of_overflow hfit _ h), ?_⟩
    intro i link hlink hend hcolon
    exact not_enumerates_of_colon hlink hend hcolon _ h
  · rintro ⟨hfit, hsplit⟩
    exact enumerates_of_tokensSplit hfit hsplit

end InMemory

/-! ## the PostgreSQL store -/

/-- The shape of an RFC 3339 timestamp: a date, the hours, the minutes, and the
seconds with what follows them. -/
def IsRfc3339 (text : String) : Prop :=
  ∃ date hours minutes rest : String,
    text = date ++ "T" ++ hours ++ ":" ++ minutes ++ ":" ++ rest

/-- chrono prints RFC 3339 timestamps. -/
def PrintsRfc3339 (chrono : Chrono) : Prop := ∀ t, IsRfc3339 (chrono.toRfc3339 t)

theorem colon_mem_of_isRfc3339 {text : String} (h : IsRfc3339 text) : ':' ∈ text.toList := by
  obtain ⟨date, hours, minutes, rest, rfl⟩ := h
  simp

section Postgres

variable {db : Database} {s : AppState (PostgresRepo db)}

/-- The listing of the table: all links, newest first. -/
def rowListing (r : PostgresRepo db) : List ShortLink :=
  (Paging.descending (LinkRow.listKey db) r.links.items).map LinkRow.toShortLink

/-- A page token of the PostgreSQL store does not split. -/
theorem tokenCursor_row (hchrono : PrintsRfc3339 db.chrono) (link : ShortLink) :
    tokenCursor (some (cursorToken (db.chrono.toRfc3339 link.createdAt, link.code))) = none :=
  tokenCursor_eq_none _ (Or.inl (colon_mem_of_isRfc3339 (hchrono link.createdAt)))

/-- A call whose token does not split fetches the first page. -/
theorem fetchLinks_first {token : Option String} (h : tokenCursor token = none) (n : Nat) :
    fetchLinks clock size s n token =
      some (((rowListing s.repo).take (pageSize size)).map .ofShortLink,
        ((rowListing s.repo).take (pageSize size)).getLast?.map
          (fun link => cursorToken (db.chrono.toRfc3339 link.createdAt, link.code))) := by
  have hsize : pageSize size < 2 ^ 63 := by
    have := pageSize_le size
    omega
  have hlist : (LinkRepository.list (clock n) (pageSize size) none s.repo).1 =
      some (.ok ((rowListing s.repo).take (pageSize size),
        ((rowListing s.repo).take (pageSize size)).getLast?.map
          (fun link => (db.chrono.toRfc3339 link.createdAt, link.code)))) := by
    have hall : (Paging.descending (LinkRow.listKey db) s.repo.links.items).filter
        (Paging.below (LinkRow.listKey db) none) =
        Paging.descending (LinkRow.listKey db) s.repo.links.items :=
      List.filter_eq_self.mpr (fun _ _ => rfl)
    have hunfold : (LinkRepository.list (clock n) (pageSize size) none s.repo).1 =
        some (s.repo.list (clock n) (pageSize size) none) := rfl
    rw [hunfold, PostgresRepo.list]
    simp only [Option.all_none, if_pos hsize, Option.map_none, Paging.page, hall, if_true,
      rowListing, List.map_take]
  rw [fetchLinks_eq, h, hlist]
  simp [Option.map_map, Function.comp_def]

/-- **PostgreSQL**: a walk enumerates the listing exactly when there is nothing
to list; otherwise it is given the first page again and again. -/
theorem enumerates_rowListing_iff (hchrono : PrintsRfc3339 db.chrono) :
    Enumerates clock size s (rowListing s.repo) ↔ s.repo.links.items = [] := by
  constructor
  · rintro ⟨n, hn⟩
    refine Classical.byContradiction (fun hrows => ?_)
    have hpos := pageSize_pos size
    have hpage : ((rowListing s.repo).take (pageSize size)).map GetLinkResponse.ofShortLink ≠
        [] := by
      rw [← List.length_pos_iff, List.length_map, List.length_take, rowListing, List.length_map,
        Paging.length_descending]
      have := List.length_pos_iff.mpr hrows
      omega
    rw [Paging.walk_eq_none (fun token => tokenCursor token = none) ?_ n none rfl] at hn
    · cases hn
    · intro n token htoken
      refine Or.inr ⟨_, _, hpage, fetchLinks_first htoken n, ?_⟩
      cases ((rowListing s.repo).take (pageSize size)).getLast? with
      | none => rfl
      | some link => exact tokenCursor_row hchrono link
  · intro hnil
    have hempty : rowListing s.repo = [] := by
      rw [rowListing, hnil]
      rfl
    have hfetch : fetchLinks clock size s 0 none = some ([], none) := by
      rw [fetchLinks_first rfl, hempty]
      simp
    exact ⟨1, by rw [Paging.walk_of_nil hfetch, hempty]; rfl⟩

end Postgres

/-- **gRPC pagination**: over the in-memory store a walk enumerates all links
exactly when no page ends with a code that has a colon in it (and no position
overflows); over the PostgreSQL store exactly when there is no link; and a cursor
comes back from its token exactly when neither of its texts has a colon. -/
theorem enumerates_iff (clock : Nat → SystemTime) (size : Int) (s : AppState InMemoryRepo)
    (db : Database) (hchrono : PrintsRfc3339 db.chrono) (t : AppState (PostgresRepo db))
    (cursor : String × String) :
    (Enumerates clock size s s.repo.listing ↔
      s.repo.listing.length + pageSize size < 2 ^ 64 ∧ TokensSplit s.repo (pageSize size)) ∧
    (Enumerates clock size t (rowListing t.repo) ↔ t.repo.links.items = []) ∧
    (tokenCursor (some (cursorToken cursor)) = some cursor ↔
      ':' ∉ cursor.1.toList ∧ ':' ∉ cursor.2.toList) :=
  ⟨enumerates_listing_iff, enumerates_rowListing_iff hchrono, tokenCursor_cursorToken cursor⟩

/-- A database whose clock has not moved from the epoch. -/
def epochDatabase : Database where
  collation := inferInstance
  clock := id
  chrono :=
    { toRfc3339 := fun _ => "1970-01-01T00:00:00+00:00"
      parseFromRfc3339 := fun text =>
        if text = "1970-01-01T00:00:00+00:00" then some .UNIX_EPOCH else none }

theorem printsRfc3339_epochDatabase : PrintsRfc3339 epochDatabase.chrono := by
  intro t
  have htext : "1970-01-01T00:00:00+00:00" =
      "1970-01-01" ++ "T" ++ "00" ++ ":" ++ "00" ++ ":" ++ "00+00:00" := by decide
  exact ⟨_, _, _, _, htext⟩

/-- The table with one link. -/
def oneRow : AppState (PostgresRepo epochDatabase) where
  repo := (PostgresRepo.new.insert .UNIX_EPOCH
    (.new .UNIX_EPOCH "promo2026" "https://example.com/")).2
  statsStorage := .new
  cache := .disabled

/-- The map with one link, whose code a gRPC client chose. -/
def oneColon : AppState InMemoryRepo where
  repo := (InMemoryRepo.new.insertSync (.new .UNIX_EPOCH "team:42" "https://example.com/")).2
  statsStorage := .new
  cache := .disabled

theorem enumerates_iff_oneRow :
    Enumerates (fun _ => .UNIX_EPOCH) 10 oneRow (rowListing oneRow.repo) ↔
      oneRow.repo.links.items = [] :=
  (enumerates_iff (fun _ => .UNIX_EPOCH) 10 oneColon epochDatabase printsRfc3339_epochDatabase oneRow
    ("", "")).2.1

/-- A table with one link and a map with one link whose code has a colon are
listed for ever. -/
theorem not_enumerates :
    ¬ Enumerates (fun _ => .UNIX_EPOCH) 10 oneRow (rowListing oneRow.repo) ∧
    ¬ Enumerates (fun _ => .UNIX_EPOCH) 10 oneColon oneColon.repo.listing := by
  constructor
  · rw [enumerates_rowListing_iff printsRfc3339_epochDatabase]
    intro hnil
    have hlen : oneRow.repo.links.items.length = 1 := by decide
    rw [hnil] at hlen
    cases hlen
  · have hlink : oneColon.repo.listing[0]? =
        some (.new .UNIX_EPOCH "team:42" "https://example.com/") := by decide
    have hend : pageSize 10 ∣ 0 + 1 ∨ 0 + 1 = oneColon.repo.listing.length := by decide
    exact not_enumerates_of_colon hlink hend (by decide) _

end Grpc

end Shorty
