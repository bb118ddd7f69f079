import Shorty.InMemory.Listing
import Shorty.Repository

/-!
# Shorty.Repository.PurgeListing

What a purge changes in a listing.  A listing does not look at expiry, so a page
changes when one of the links it would show is dropped.  The in-memory listing,
which resumes by position, also starts over when the link its cursor names is
dropped.
-/

namespace Shorty

/-- The repository after a purge. -/
def purged {R : Type} [LinkRepository R] (now : SystemTime) (r : R) : R :=
  (LinkRepository.purgeExpired now r).2

/-- The codes a listing shows. -/
def listedCodes : Option (Except RepoError ListPage) → Option (List String)
  | some (.ok page) => some (page.1.map ShortLink.code)
  | _ => none

/-- A repository whose listings tell exactly whether a purge has run where
`SeesPurge` holds. -/
class PurgeListing (R : Type) [LinkRepository R] where
  SeesPurge : SystemTime → Nat → Option (String × String) → R → Prop
  list_same : ∀ {now limit cursor} {r : R}, ¬ SeesPurge now limit cursor r →
    (LinkRepository.list now limit cursor (purged now r)).1 =
      (LinkRepository.list now limit cursor r).1
  list_differs : ∀ {now limit cursor} {r : R}, SeesPurge now limit cursor r →
    listedCodes (LinkRepository.list now limit cursor (purged now r)).1 ≠
      listedCodes (LinkRepository.list now limit cursor r).1

/-! ## the in-memory store -/

namespace InMemoryRepo

variable {r : InMemoryRepo} {now : SystemTime} {limit : Nat} {cursor : Option (String × String)}
  {link : ShortLink}

/-- Whether a link is not expired. -/
def live (now : SystemTime) (link : ShortLink) : Bool := !link.isExpired now

theorem mem_links_purged : link ∈ (purged now r).links ↔ link ∈ r.links ∧ live now link = true := by
  have hget : (purged now r).inner.get? link.code =
      (r.inner.get? link.code).filter (fun e => !e.link.isExpired now) :=
    get?_purgeExpiredSync r now link.code
  rw [mem_links, mem_links, hget]
  cases r.inner.get? link.code with
  | none => simp
  | some e =>
      simp only [Option.filter_some, Option.some.injEq]
      constructor
      · rintro ⟨e', he', rfl⟩
        split at he'
        · cases he'
          exact ⟨⟨e, rfl, rfl⟩, ‹_›⟩
        · cases he'
      · rintro ⟨⟨e', rfl, rfl⟩, hlive⟩
        exact ⟨e, if_pos hlive, rfl⟩

/-- A purge drops the expired links from the listing. -/
theorem listing_purged (r : InMemoryRepo) (now : SystemTime) :
    (purged now r).listing = r.listing.filter (live now) := by
  have hnodup : ∀ r : InMemoryRepo, r.listing.Nodup := fun r =>
    (pairwise_listing r).imp (fun hlt heq => absurd (heq ▸ hlt) (lt_irrefl _))
  refine Paging.eq_of_perm_of_pairwise ?_ (pairwise_listing _) ((pairwise_listing r).filter _)
  rw [List.perm_ext_iff_of_nodup (hnodup _) ((hnodup r).filter _)]
  intro link
  rw [mem_listing, mem_links_purged, List.mem_filter, mem_listing]

theorem nodup_code_listing (r : InMemoryRepo) : (r.listing.map ShortLink.code).Nodup :=
  ((Paging.descending_perm r.links).map ShortLink.code).nodup_iff.mpr (nodup_code_links r)

theorem eq_cursorOf_of_named {c : String × String} (h : link.named c = true) :
    c = cursorOf link := by
  obtain ⟨hts, hcode⟩ := of_decide_eq_true h
  rw [cursorOf, hts, hcode]

/-- Where the listing resumes before and after a purge: the cursor names no link,
or one that stays, or one that is dropped. -/
theorem listStart_cases (r : InMemoryRepo) (now : SystemTime) (cursor : Option (String × String)) :
    (listStart r.listing cursor = 0 ∧ listStart (purged now r).listing cursor = 0 ∧
      ∀ link ∈ r.listing, cursor ≠ some (cursorOf link)) ∨
    ∃ i link, r.listing[i]? = some link ∧ cursor = some (cursorOf link) ∧
      listStart r.listing cursor = i + 1 ∧
      ((link.isExpired now = false ∧ ∃ j ≤ i, listStart (purged now r).listing cursor = j + 1 ∧
          (purged now r).listing.drop (j + 1) = (r.listing.drop (i + 1)).filter (live now)) ∨
        (link.isExpired now = true ∧ listStart (purged now r).listing cursor = 0)) := by
  cases cursor with
  | none => exact Or.inl ⟨rfl, rfl, fun _ _ h => by cases h⟩
  | some c =>
      by_cases hnamed : ∃ link ∈ r.links, link.named c = true
      · right
        obtain ⟨link, hlink, hnamed⟩ := hnamed
        obtain rfl := eq_cursorOf_of_named hnamed
        obtain ⟨i, hi⟩ := List.mem_iff_getElem?.mp (mem_listing.mpr hlink)
        refine ⟨i, link, hi, rfl, listStart_cursorOf hi, ?_⟩
        cases hexp : link.isExpired now with
        | false =>
            left
            have hlive : live now link = true := by rw [live, hexp]; rfl
            have hmem := mem_listing.mpr (mem_links_purged.mpr ⟨hlink, hlive⟩)
            obtain ⟨j, hj⟩ := List.mem_iff_getElem?.mp hmem
            refine ⟨rfl, j, ?_, listStart_cursorOf hj, ?_⟩
            · rw [← Paging.length_above_of_pairwise (pairwise_listing r) hi,
                ← Paging.length_above_of_pairwise (pairwise_listing (purged now r)) hj,
                listing_purged]
              exact (List.filter_sublist.filter _).length_le
            · rw [Paging.drop_eq_filter_of_pairwise (pairwise_listing _) hj, listing_purged,
                Paging.drop_eq_filter_of_pairwise (pairwise_listing r) hi, List.filter_filter,
                List.filter_filter]
              simp only [Bool.and_comm]
        | true =>
            right
            refine ⟨rfl, listStart_of_not_named (fun link' hlink' => ?_)⟩
            obtain ⟨hmem, hlive⟩ := mem_links_purged.mp hlink'
            refine Bool.eq_false_iff.mpr (fun hnamed' => ?_)
            have hcode : link'.code = link.code := (of_decide_eq_true hnamed').2
            rw [eq_of_code_eq hmem hlink hcode, live, hexp] at hlive
            cases hlive
      · left
        simp only [not_exists, not_and, Bool.not_eq_true] at hnamed
        refine ⟨listStart_of_not_named hnamed,
          listStart_of_not_named (fun link hlink => hnamed link (mem_links_purged.mp hlink).1), ?_⟩
        intro link hlink heq
        cases heq
        have hself := hnamed link (mem_listing.mp hlink)
        simp [ShortLink.named, cursorOf] at hself

/-- What tells a listing before a purge from one after it: an expired link among
the next ones, or an expired link that the cursor names and a link before it that
stays.  Where the end of the page overflows, it is that it does not afterwards. -/
def ListingSeesPurge (now : SystemTime) (limit : Nat) (cursor : Option (String × String))
    (r : InMemoryRepo) : Prop :=
  if listStart r.listing cursor + limit < 2 ^ 64 then
    (∃ link ∈ (r.listing.drop (listStart r.listing cursor)).take limit,
      link.isExpired now = true) ∨
    (0 < limit ∧ ∃ i link, r.listing[i]? = some link ∧ cursor = some (cursorOf link) ∧
      link.isExpired now = true ∧ ∃ before ∈ r.listing.take i, before.isExpired now = false)
  else listStart (r.listing.filter (live now)) cursor + limit < 2 ^ 64

/-- The codes of a page, before and after a purge. -/
theorem map_code_page_iff (h : listStart r.listing cursor + limit < 2 ^ 64) :
    (((purged now r).listing.drop (listStart (purged now r).listing cursor)).take limit).map
        ShortLink.code =
      ((r.listing.drop (listStart r.listing cursor)).take limit).map ShortLink.code ↔
    ¬ ListingSeesPurge now limit cursor r := by
  have hnodup := nodup_code_listing r
  have hdrop : ∀ n, ((r.listing.drop n).map ShortLink.code).Nodup := fun n =>
    hnodup.sublist ((List.drop_sublist _ _).map _)
  have hlive : ∀ l : List ShortLink, (∀ a ∈ l, live now a = true) ↔
      ¬ ∃ a ∈ l, a.isExpired now = true := by
    intro l
    simp [live]
  rw [ListingSeesPurge, if_pos h, not_or, ← hlive]
  rcases listStart_cases r now cursor with ⟨hstart, hstart', hnone⟩ | ⟨i, link, hi, hc, hstart, hcase⟩
  · rw [hstart, hstart', List.drop_zero, List.drop_zero, listing_purged,
      Paging.map_take_filter_eq_iff hnodup]
    refine ⟨fun h => ⟨h, ?_⟩, fun h => h.1⟩
    rintro ⟨_, i, link, hi, hcursor, _⟩
    exact hnone link (List.mem_of_getElem? hi) hcursor
  · rcases hcase with ⟨hexp, j, _, hstart', htail⟩ | ⟨hexp, hstart'⟩
    · rw [hstart, hstart', htail, Paging.map_take_filter_eq_iff (hdrop _)]
      refine ⟨fun h => ⟨h, ?_⟩, fun h => h.1⟩
      rintro ⟨_, i', link', hi', hc', hexp', _⟩
      rw [hc] at hc'
      obtain ⟨_, rfl⟩ := eq_of_cursorOf_eq hi hi' (Option.some.inj hc')
      rw [hexp] at hexp'
      cases hexp'
    · rw [hstart, hstart', List.drop_zero, listing_purged]
      rcases Nat.eq_zero_or_pos limit with rfl | hpos
      · simp
      · have hdead : live now link = false := by rw [live, hexp]; rfl
        rw [Paging.map_take_filter_eq_map_take_drop_iff hnodup hi hdead hpos]
        constructor
        · rintro ⟨hbefore, hnext⟩
          refine ⟨hnext, ?_⟩
          rintro ⟨_, i', link', hi', hc', _, before, hmem, hlive'⟩
          rw [hc] at hc'
          obtain ⟨rfl, _⟩ := eq_of_cursorOf_eq hi hi' (Option.some.inj hc')
          have hb := hbefore before hmem
          rw [live, hlive'] at hb
          cases hb
        · rintro ⟨hnext, hnot⟩
          refine ⟨fun before hmem => ?_, hnext⟩
          refine Bool.eq_false_iff.mpr (fun hb => hnot ⟨hpos, i, link, hi, hc, hexp, before, hmem, ?_⟩)
          rw [live, Bool.not_eq_true'] at hb
          exact hb

/-- A page that shows the same codes shows the same links. -/
theorem page_eq_of_map_code {a b : List ShortLink} (ha : ∀ link ∈ a, link ∈ r.links)
    (hb : ∀ link ∈ b, link ∈ r.links) (h : a.map ShortLink.code = b.map ShortLink.code) : a = b := by
  refine List.ext_getElem? (fun i => ?_)
  have hi : (a[i]?).map ShortLink.code = (b[i]?).map ShortLink.code := by
    rw [← List.getElem?_map, ← List.getElem?_map, h]
  cases hai : a[i]? with
  | none =>
      rw [hai] at hi
      exact (Option.map_eq_none_iff.mp hi.symm).symm
  | some x =>
      rw [hai, Option.map_some] at hi
      obtain ⟨y, hbi, hcode⟩ := Option.map_eq_some_iff.mp hi.symm
      rw [hbi, eq_of_code_eq (hb y (List.mem_of_getElem? hbi)) (ha x (List.mem_of_getElem? hai)) hcode]

/-- After a purge the end of a page overflows only where it did before. -/
theorem fits_purged (h : listStart r.listing cursor + limit < 2 ^ 64) :
    listStart (purged now r).listing cursor + limit < 2 ^ 64 := by
  rcases listStart_cases r now cursor with ⟨_, hstart', _⟩ | ⟨i, _, _, _, hstart, hcase⟩
  · omega
  · rcases hcase with ⟨_, j, hle, hstart', _⟩ | ⟨_, hstart'⟩ <;> omega

theorem list_eq (h : listStart r.listing cursor + limit < 2 ^ 64) :
    (LinkRepository.list now limit cursor r).1 =
      some (.ok ((r.listing.drop (listStart r.listing cursor)).take limit,
        ((r.listing.drop (listStart r.listing cursor)).take limit).getLast?.map cursorOf)) :=
  congrArg (Option.map Except.ok) (listSync_eq h)

theorem list_eq_none (h : ¬ listStart r.listing cursor + limit < 2 ^ 64) :
    (LinkRepository.list now limit cursor r).1 = none :=
  congrArg (Option.map Except.ok) (listSync_eq_none h)

instance : PurgeListing InMemoryRepo where
  SeesPurge := ListingSeesPurge
  list_same {now limit cursor r} hsees := by
    by_cases h : listStart r.listing cursor + limit < 2 ^ 64
    · rw [list_eq h, list_eq (fits_purged h)]
      have hsub : ∀ (r' : InMemoryRepo) n, ∀ link ∈ (r'.listing.drop n).take limit, link ∈ r'.links :=
        fun r' n link hlink => mem_listing.mp (List.mem_of_mem_drop (List.mem_of_mem_take hlink))
      rw [page_eq_of_map_code (fun link hlink => (mem_links_purged.mp (hsub _ _ link hlink)).1)
        (hsub r _) ((map_code_page_iff h).mpr hsees)]
    · rw [ListingSeesPurge, if_neg h, ← listing_purged] at hsees
      rw [list_eq_none h, list_eq_none hsees]
  list_differs {now limit cursor r} hsees := by
    by_cases h : listStart r.listing cursor + limit < 2 ^ 64
    · rw [list_eq h, list_eq (fits_purged h)]
      intro heq
      exact (map_code_page_iff h).mp (Option.some.inj heq) hsees
    · rw [ListingSeesPurge, if_neg h, ← listing_purged] at hsees
      rw [list_eq_none h, list_eq hsees]
      rintro ⟨⟩

end InMemoryRepo

/-! ## the PostgreSQL store -/

namespace PostgresRepo

variable {db : Database} {r : PostgresRepo db} {now : SystemTime} {limit : Nat}
  {cursor : Option (String × String)}

/-- What tells a listing before a purge from one after it: an expired row below
the cursor, with fewer rows than the limit in between. -/
def ListingSeesPurge (now : SystemTime) (limit : Nat) (cursor : Option (String × String))
    (r : PostgresRepo db) : Prop :=
  (cursor.all (fun c => isText c.2) = true ∧ limit < 2 ^ 63) ∧
    ∃ row ∈ r.links.items, row.toShortLink.isExpired now = true ∧
      Paging.below (LinkRow.listKey db) (cursor.map (listBound now)) row = true ∧
      (r.links.items.filter (fun row' =>
        Paging.below (LinkRow.listKey db) (cursor.map (listBound now)) row' &&
          decide (row.listKey db < row'.listKey db))).length < limit

/-- The rows a listing shows. -/
def listedRows (now : SystemTime) (limit : Nat) (cursor : Option (String × String))
    (r : PostgresRepo db) : List LinkRow :=
  Paging.page (LinkRow.listKey db) limit (cursor.map (listBound now)) r.links.items

theorem listingSeesPurge_iff : ListingSeesPurge now limit cursor r ↔
    (cursor.all (fun c => isText c.2) = true ∧ limit < 2 ^ 63) ∧
      ∃ row ∈ listedRows now limit cursor r, row.toShortLink.isExpired now = true := by
  simp only [ListingSeesPurge, listedRows, Paging.mem_page_iff (nodup_listKey r)]
  constructor
  · rintro ⟨hok, row, hrow, hexp, hbelow, hcount⟩
    exact ⟨hok, row, ⟨⟨hrow, hbelow⟩, hcount⟩, hexp⟩
  · rintro ⟨hok, row, ⟨⟨hrow, hbelow⟩, hcount⟩, hexp⟩
    exact ⟨hok, row, hrow, hexp, hbelow, hcount⟩

/-- A purge drops the expired rows from what a listing selects from. -/
theorem listedRows_purged (r : PostgresRepo db) : listedRows now limit cursor (purged now r) =
    (((Paging.descending (LinkRow.listKey db) r.links.items).filter
      (Paging.below (LinkRow.listKey db) (cursor.map (listBound now)))).filter
        (fun row => !expiredRow now row)).take limit := by
  have hitems : (purged now r).links.items = r.links.items.filter (fun row => !expiredRow now row) :=
    rfl
  rw [listedRows, Paging.page, hitems, Paging.descending_filter _ (nodup_listKey r),
    List.filter_filter, List.filter_filter]
  simp only [Bool.and_comm]

theorem expiredRow_of_listed {row : LinkRow} (h : row ∈ listedRows now limit cursor r) :
    expiredRow now row = row.toShortLink.isExpired now :=
  expiredRow_eq now (r.wellFormed row (Paging.mem_of_mem_page h))

/-- A purge that drops no listed row leaves the page as it is. -/
theorem listedRows_same
    (h : ¬ ∃ row ∈ listedRows now limit cursor r, row.toShortLink.isExpired now = true) :
    listedRows now limit cursor (purged now r) = listedRows now limit cursor r := by
  rw [listedRows_purged]
  refine Paging.take_filter_of_forall (fun row hrow => ?_)
  rw [expiredRow_of_listed hrow, Bool.not_eq_true', ← Bool.not_eq_true]
  exact fun hexp => h ⟨row, hrow, hexp⟩

/-- A purge that drops a listed row shows in the codes of the page. -/
theorem listedRows_differs
    (h : ∃ row ∈ listedRows now limit cursor r, row.toShortLink.isExpired now = true) :
    (listedRows now limit cursor (purged now r)).map LinkRow.code ≠
      (listedRows now limit cursor r).map LinkRow.code := by
  have hnodup : (((Paging.descending (LinkRow.listKey db) r.links.items).filter
      (Paging.below (LinkRow.listKey db) (cursor.map (listBound now)))).map LinkRow.code).Nodup :=
    (((Paging.descending_perm _).map LinkRow.code).nodup_iff.mpr r.links.nodup).sublist
      (List.filter_sublist.map _)
  obtain ⟨row, hrow, hexp⟩ := h
  rw [listedRows_purged]
  intro heq
  have hkept := (Paging.map_take_filter_eq_iff hnodup).mp heq row hrow
  rw [expiredRow_of_listed hrow, hexp] at hkept
  cases hkept

theorem list_eq (r : PostgresRepo db) : (LinkRepository.list now limit cursor r).1 =
    some (if cursor.all (fun c => isText c.2) = true then
      if limit < 2 ^ 63 then
        .ok ((listedRows now limit cursor r).map LinkRow.toShortLink,
          ((listedRows now limit cursor r).map LinkRow.toShortLink).getLast?.map
            (fun link => (db.chrono.toRfc3339 link.createdAt, link.code)))
      else .error (mapSqlError .negativeLimit)
    else .error (mapSqlError .badEncoding)) := rfl

instance (db : Database) : PurgeListing (PostgresRepo db) where
  SeesPurge := ListingSeesPurge
  list_same {now limit cursor r} hsees := by
    rw [listingSeesPurge_iff] at hsees
    rw [list_eq, list_eq]
    split
    · rename_i htext
      split
      · rename_i hlimit
        rw [listedRows_same (fun h => hsees ⟨⟨htext, hlimit⟩, h⟩)]
      · rfl
    · rfl
  list_differs {now limit cursor r} hsees := by
    rw [listingSeesPurge_iff] at hsees
    obtain ⟨⟨htext, hlimit⟩, hrow⟩ := hsees
    simp only [list_eq, if_pos htext, if_pos hlimit]
    intro heq
    refine listedRows_differs hrow ?_
    have hcodes := Option.some.inj heq
    rw [List.map_map, List.map_map] at hcodes
    exact hcodes

end PostgresRepo

end Shorty
