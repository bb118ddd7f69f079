import Shorty.InMemory.Listing
import Shorty.InMemory.Purge

/-!
# Shorty.InMemory.Enumeration

A walk through the listing of an unchanged store.  The map is iterated in an order of
its own at every call, and sorting by time and code undoes it, so every call cuts its
page out of the same listing and a cursor stands for a position of it.  The pages are
then all links, newest first, for as long as the end of a page is a machine word.
-/

namespace Shorty

namespace InMemoryRepo

variable {r r' : InMemoryRepo} {limit : Nat}

/-- The order in which the map is iterated does not show in the listing. -/
theorem listing_eq_of_sameMaps (h : SameMaps r r') : r'.listing = r.listing := by
  have hlinks : r.links.Perm r'.links := (Table.perm_of_get?_eq h.get?_eq).map _
  apply Paging.eq_of_perm_of_pairwise _ (pairwise_listing r') (pairwise_listing r)
  exact (Paging.descending_perm _).trans (hlinks.symm.trans (Paging.descending_perm _).symm)

/-- One call of a walk, on the map as it is iterated then. -/
def fetchPage (orders : Nat → InMemoryRepo) (limit : Nat) (n : Nat) (cursor : Option (String × String)) :
    Option ListPage := (orders n).listSync limit cursor

/-- What the pages of a walk have to be: all links, each once, newest first, in full pages
but for the last, and then an empty one. -/
structure EnumeratesPages (r : InMemoryRepo) (limit : Nat) (pages : List (List ShortLink)) : Prop where
  perm : pages.flatten.Perm r.links
  ordered : pages.flatten.Pairwise (fun a b => b.listKey < a.listKey)
  paginates : Paging.Paginates limit pages.flatten pages

/-- A cursor stands for the position it resumes at. -/
def StandsAt (r : InMemoryRepo) (i : Nat) (cursor : Option (String × String)) : Prop :=
  listStart r.listing cursor = i

section Orders

variable {orders : Nat → InMemoryRepo} (horders : ∀ n, SameMaps r (orders n))
  {i : Nat} {cursor : Option (String × String)}

include horders

theorem fetchPage_of_standsAt (h : StandsAt r i cursor) (n : Nat) :
    fetchPage orders limit n cursor = if i + limit < 2 ^ 64 then
      some ((r.listing.drop i).take limit, ((r.listing.drop i).take limit).getLast?.map cursorOf)
    else none := by
  have hlisting := listing_eq_of_sameMaps (horders n)
  have hstart : listStart (orders n).listing cursor = i := by rw [hlisting]; exact h
  unfold fetchPage
  split
  · rename_i hfit
    rw [listSync_eq (by rw [hstart]; exact hfit), hstart, hlisting]
  · rename_i hfit
    rw [listSync_eq_none (by rw [hstart]; exact hfit)]

/-- The cursor of a page inside the listing stands behind the page. -/
theorem fetchPage_inside (hlimit : 1 ≤ limit) (h : StandsAt r i cursor) (hi : i < r.listing.length)
    (hfit : i + limit < 2 ^ 64) (n : Nat) :
    ∃ next, fetchPage orders limit n cursor = some ((r.listing.drop i).take limit, some next) ∧
      StandsAt r (min (i + limit) r.listing.length) (some next) := by
  have hlast : min (i + limit) r.listing.length - 1 < r.listing.length := by omega
  have hlink := List.getElem?_eq_getElem hlast
  refine ⟨cursorOf r.listing[min (i + limit) r.listing.length - 1], ?_, ?_⟩
  · rw [fetchPage_of_standsAt horders h, if_pos hfit, Paging.getLast?_take_drop hlimit hi, hlink]
    rfl
  · have hstart := listStart_cursorOf hlink
    rwa [Nat.sub_add_cancel (by omega)] at hstart

/-- As long as no end of a page overflows, a walk gets the pages of the listing. -/
theorem walkPages_of_fit (hlimit : 1 ≤ limit) (hfit : r.links.length + limit < 2 ^ 64) :
    ∃ pages, Paging.walkPages (fetchPage orders limit) ((r.links.length + limit - 1) / limit + 1) none =
      some pages ∧ EnumeratesPages r limit pages := by
  have hlength : r.listing.length = r.links.length := Paging.length_descending
  have hfetch : ∀ n i cursor, StandsAt r i cursor → i ≤ r.listing.length →
      ∃ next, fetchPage orders limit n cursor = some ((r.listing.drop i).take limit, next) ∧
        (i = r.listing.length → next = none) ∧
        (i < r.listing.length →
          ∃ c, next = some c ∧ StandsAt r (min (i + limit) r.listing.length) (some c)) := by
    intro n i cursor hstands hi
    by_cases hend : i = r.listing.length
    · refine ⟨none, ?_, fun _ => rfl, fun hlt => absurd hend (Nat.ne_of_lt hlt)⟩
      rw [fetchPage_of_standsAt horders hstands, if_pos (by omega)]
      simp [hend]
    · obtain ⟨next, hpage, hnext⟩ :=
        fetchPage_inside horders hlimit hstands (by omega) (by omega) n
      exact ⟨some next, hpage, fun heq => absurd heq hend, fun _ => ⟨next, rfl, hnext⟩⟩
  obtain ⟨pages, hpages, hall⟩ := Paging.walkPages_eq hlimit (StandsAt r) hfetch
    ((r.links.length + limit - 1) / limit + 1) 0 none (Nat.zero_le _) rfl
    (by rw [Nat.sub_zero, hlength]; exact Nat.lt_succ_self _)
  refine ⟨pages, hpages, ?_⟩
  rw [List.drop_zero] at hall
  constructor
  · rw [hall.flatten_eq]
    exact Paging.descending_perm _
  · rw [hall.flatten_eq]
    exact pairwise_listing r
  · rw [hall.flatten_eq]
    exact hall

/-- The call that would get the empty page panics when its end overflows. -/
theorem walkPages_of_overflow (hlimit : 1 ≤ limit) (hword : ¬ r.links.length + limit < 2 ^ 64)
    (n : Nat) : Paging.walkPages (fetchPage orders limit) n none = none := by
  have hlength : r.listing.length = r.links.length := Paging.length_descending
  apply Paging.walkPages_eq_none (fun cursor => ∃ i ≤ r.listing.length, StandsAt r i cursor)
  · rintro n cursor ⟨i, hi, hstands⟩
    by_cases hiter : i + limit < 2 ^ 64
    · right
      obtain ⟨next, hpage, hnext⟩ := fetchPage_inside horders hlimit hstands (by omega) hiter n
      exact ⟨_, next, hpage, _, Nat.min_le_right _ _, hnext⟩
    · left
      rw [fetchPage_of_standsAt horders hstands, if_neg hiter]
  · exact ⟨0, Nat.zero_le _, rfl⟩

end Orders

/-- **Enumeration**: over an unchanged store, with the map in any order at each call, a
walk gets all links in full pages and then an empty one exactly when the number of
links and the limit add up to a machine word. -/
theorem walkPages_enumerates_iff (r : InMemoryRepo) (limit : Nat) (hlimit : 1 ≤ limit) :
    (∀ orders : Nat → InMemoryRepo, (∀ n, SameMaps r (orders n)) →
      ∃ pages, Paging.walkPages (fetchPage orders limit) ((r.links.length + limit - 1) / limit + 1) none =
        some pages ∧ EnumeratesPages r limit pages) ↔
      r.links.length + limit < 2 ^ 64 := by
  constructor
  · intro h
    by_contra hword
    obtain ⟨pages, hpages, _⟩ := h (fun _ => r) (fun _ => sameMaps_refl r)
    rw [walkPages_of_overflow (fun _ => sameMaps_refl r) hlimit hword] at hpages
    cases hpages
  · intro hfit orders horders
    exact walkPages_of_fit horders hlimit hfit

/-- A store with one link. -/
def singleLink : InMemoryRepo := (new.insertSync (.new .UNIX_EPOCH "promo2026" "https://example.com/")).2

/-- A store with three links, two of them made at the same time. -/
def threeLinks : InMemoryRepo :=
  ((singleLink.insertSync (.new (.ofSecs 1) "about" "https://example.com/")).2.insertSync
    (.new .UNIX_EPOCH "flash" "https://example.com/")).2

/-- Its links in another order. -/
def threeLinksAgain : InMemoryRepo :=
  (((new.insertSync (.new (.ofSecs 1) "about" "https://example.com/")).2.insertSync
    (.new .UNIX_EPOCH "flash" "https://example.com/")).2.insertSync
    (.new .UNIX_EPOCH "promo2026" "https://example.com/")).2

/-- In pages of two, with the map in another order at every other call. -/
theorem walkPages_enumerates_threeLinks :
    ((∀ orders : Nat → InMemoryRepo, (∀ n, SameMaps threeLinks (orders n)) →
        ∃ pages, Paging.walkPages (fetchPage orders 2) ((threeLinks.links.length + 2 - 1) / 2 + 1) none =
          some pages ∧ EnumeratesPages threeLinks 2 pages) ↔
      threeLinks.links.length + 2 < 2 ^ 64) ∧
    (Paging.walkPages (fetchPage (fun n => if n % 2 = 0 then threeLinks else threeLinksAgain) 2) 3 none).map
        (List.map (List.map ShortLink.code)) = some [["about", "promo2026"], ["flash"], []] :=
  ⟨walkPages_enumerates_iff threeLinks 2 (by decide), by decide⟩

/-- With the greatest limit the second call, which would get the empty page, panics. -/
theorem not_walkPages_enumerates :
    ¬ ∀ (r : InMemoryRepo) (limit : Nat), 1 ≤ limit → limit < 2 ^ 64 →
      ∀ orders : Nat → InMemoryRepo, (∀ n, SameMaps r (orders n)) →
        ∃ pages, Paging.walkPages (fetchPage orders limit) ((r.links.length + limit - 1) / limit + 1)
          none = some pages ∧ EnumeratesPages r limit pages := by
  intro h
  obtain ⟨pages, hpages, _⟩ := h singleLink (2 ^ 64 - 1) (by decide) (by decide) (fun _ => singleLink)
    (fun _ => sameMaps_refl singleLink)
  have hone : singleLink.links.length = 1 := rfl
  rw [walkPages_of_overflow (fun _ => sameMaps_refl singleLink) (by decide) (by rw [hone]; decide)] at hpages
  cases hpages

end InMemoryRepo

end Shorty
