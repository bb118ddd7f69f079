import Shorty.InMemory

/-!
# Shorty.InMemory.Listing

What one page of the in-memory listing contains.  The source finds its place by
position: it looks for the link the cursor names and starts after it.  As long
as that link is still stored, this is a keyset page, `Paging.page`, below the
link's key.
-/

namespace Shorty

namespace InMemoryRepo

variable {r : InMemoryRepo} {limit : Nat} {cursor : Option (String × String)}

/-- The codes of the listed links are the keys of the map. -/
theorem map_code_links (r : InMemoryRepo) :
    r.links.map ShortLink.code = r.inner.items.map Prod.fst := by
  rw [links, List.map_map]
  exact List.map_congr_left (fun p hp => r.keyed p hp)

theorem nodup_code_links (r : InMemoryRepo) : (r.links.map ShortLink.code).Nodup := by
  rw [map_code_links]
  exact r.inner.nodup

theorem nodup_listKey_links (r : InMemoryRepo) : (r.links.map ShortLink.listKey).Nodup := by
  have hmap : r.links.map ShortLink.code =
      (r.links.map ShortLink.listKey).map (fun k => (ofLex k).2) := by
    rw [List.map_map]
    rfl
  have hnodup := nodup_code_links r
  rw [hmap] at hnodup
  exact hnodup.of_map _

theorem mem_links {link : ShortLink} :
    link ∈ r.links ↔ ∃ e, r.inner.get? link.code = some e ∧ e.link = link := by
  simp only [links, List.mem_map]
  constructor
  · rintro ⟨⟨code, e⟩, hmem, rfl⟩
    have hcode : e.link.code = code := r.keyed _ hmem
    exact ⟨e, by rw [hcode]; exact Table.get?_eq_some_iff.mpr hmem, rfl⟩
  · rintro ⟨e, he, rfl⟩
    exact ⟨(e.link.code, e), Table.get?_eq_some_iff.mp he, rfl⟩

theorem link_mem_links {code : String} {e : LinkEntry} (he : r.inner.get? code = some e) :
    e.link ∈ r.links :=
  mem_links.mpr ⟨e, by rw [code_of_get? he]; exact he, rfl⟩

theorem eq_of_code_eq {a b : ShortLink} (ha : a ∈ r.links) (hb : b ∈ r.links)
    (h : a.code = b.code) : a = b :=
  List.inj_on_of_nodup_map (nodup_code_links r) ha hb h

/-- The listing: all links, newest first. -/
def listing (r : InMemoryRepo) : List ShortLink := Paging.descending ShortLink.listKey r.links

theorem pairwise_listing (r : InMemoryRepo) :
    r.listing.Pairwise (fun a b => b.listKey < a.listKey) :=
  Paging.pairwise_descending (nodup_listKey_links r)

theorem mem_listing {link : ShortLink} : link ∈ r.listing ↔ link ∈ r.links := Paging.mem_descending

/-- A cursor's timestamp is made of decimal digits. -/
theorem isDigit_of_mem_cursorTs {link : ShortLink} {c : Char} (h : c ∈ link.cursorTs.toList) :
    c.isDigit = true := by
  rw [ShortLink.cursorTs, Nat.toString_eq_repr, Nat.toList_repr] at h
  exact Nat.isDigit_of_mem_toDigits (by decide) (by decide) h

/-- The cursor a page hands out for the next one. -/
def cursorOf (link : ShortLink) : String × String := (link.cursorTs, link.code)

/-- A page that does not overflow is a stretch of the listing. -/
theorem listSync_eq (h : listStart r.listing cursor + limit < 2 ^ 64) :
    r.listSync limit cursor =
      some ((r.listing.drop (listStart r.listing cursor)).take limit,
        ((r.listing.drop (listStart r.listing cursor)).take limit).getLast?.map cursorOf) := by
  have hstop : ∀ start, (r.listing.drop start).take
      (min (start + limit) r.listing.length - start) = (r.listing.drop start).take limit := by
    intro start
    rcases Nat.le_total (start + limit) r.listing.length with hle | hle
    · rw [Nat.min_eq_left hle, Nat.add_sub_cancel_left]
    · rw [Nat.min_eq_right hle, List.take_of_length_le (by simp),
        List.take_of_length_le (by simp; omega)]
  have hsync : r.listSync limit cursor = if listStart r.listing cursor + limit < 2 ^ 64 then
      some ((r.listing.drop (listStart r.listing cursor)).take
        (min (listStart r.listing cursor + limit) r.listing.length - listStart r.listing cursor),
        ((r.listing.drop (listStart r.listing cursor)).take
          (min (listStart r.listing cursor + limit) r.listing.length -
            listStart r.listing cursor)).getLast?.map cursorOf) else none := rfl
  rw [hsync, if_pos h, hstop]

theorem listSync_eq_none (h : ¬ listStart r.listing cursor + limit < 2 ^ 64) :
    r.listSync limit cursor = none := by
  have hsync : r.listSync limit cursor = if listStart r.listing cursor + limit < 2 ^ 64 then
      some _ else none := rfl
  rw [hsync, if_neg h]

/-- In a listing, the link a cursor was made from is the only one it names. -/
theorem findIdx?_listing {link : ShortLink} {i : Nat} (h : r.listing[i]? = some link) :
    r.listing.findIdx? (·.named (cursorOf link)) = some i := by
  obtain ⟨hlt, hget⟩ := List.getElem?_eq_some_iff.mp h
  rw [List.findIdx?_eq_some_iff_getElem]
  refine ⟨hlt, by simp [hget, ShortLink.named, cursorOf], ?_⟩
  intro j hji hnamed
  have hcode : r.listing[j].code = link.code := by
    simp only [ShortLink.named, cursorOf] at hnamed
    exact (of_decide_eq_true hnamed).2
  have hpw := List.pairwise_iff_getElem.mp (pairwise_listing r) j i (by omega) hlt hji
  have hmem : r.listing[j] ∈ r.links := mem_listing.mp (List.getElem_mem _)
  have hmem' : link ∈ r.links := mem_listing.mp (List.mem_of_getElem? h)
  rw [hget, eq_of_code_eq hmem hmem' hcode] at hpw
  exact absurd hpw (lt_irrefl _)

theorem listStart_cursorOf {link : ShortLink} {i : Nat} (h : r.listing[i]? = some link) :
    listStart r.listing (some (cursorOf link)) = i + 1 := by
  simp [listStart, findIdx?_listing h]

/-- A cursor names one link of the listing. -/
theorem eq_of_cursorOf_eq {link link' : ShortLink} {i i' : Nat} (h : r.listing[i]? = some link)
    (h' : r.listing[i']? = some link') (heq : cursorOf link = cursorOf link') : i = i' ∧ link = link' := by
  have hstart := listStart_cursorOf h
  rw [heq, listStart_cursorOf h'] at hstart
  obtain rfl : i = i' := by omega
  exact ⟨rfl, Option.some.inj (h.symm.trans h')⟩

/-- A cursor whose link is not stored starts over. -/
theorem listStart_of_not_named (h : ∀ link ∈ r.links, link.named c = false) :
    listStart r.listing (some c) = 0 := by
  have hnone : r.listing.findIdx? (·.named c) = none := by
    rw [List.findIdx?_eq_none_iff]
    intro link hlink
    exact h link (mem_listing.mp hlink)
  simp [listStart, hnone]

/-! ## pages by key -/

/-- A cursor that resumes below a bound: no cursor and no bound, or the cursor
and the key of a link whose creation time its code still has in the store. -/
inductive Resumes (r : InMemoryRepo) : Option (String × String) →
    Option (SystemTime ×ₗ String) → Prop where
  | front : Resumes r none none
  | after (last : ShortLink) (e : LinkEntry) (he : r.inner.get? last.code = some e)
      (hcreated : e.link.createdAt = last.createdAt) :
      Resumes r (some (cursorOf last)) (some last.listKey)

/-- **One page**: a cursor that resumes below a bound yields the keyset page
below that bound. -/
theorem listSync_eq_page {bound : Option (SystemTime ×ₗ String)} (hr : Resumes r cursor bound) :
    r.listSync limit cursor = none ∨
      r.listSync limit cursor =
        some (Paging.page ShortLink.listKey limit bound r.links,
          (Paging.page ShortLink.listKey limit bound r.links).getLast?.map cursorOf) := by
  by_cases hfit : listStart r.listing cursor + limit < 2 ^ 64
  · right
    rw [listSync_eq hfit]
    cases hr with
    | front =>
        have hall : r.listing.filter (Paging.below ShortLink.listKey none) = r.listing :=
          List.filter_eq_self.mpr (fun _ _ => rfl)
        rw [Paging.page, ← listing, hall]
        rfl
    | after last e he hcreated =>
        have hcode : e.link.code = last.code := code_of_get? he
        have hcursor : cursorOf e.link = cursorOf last := by
          simp [cursorOf, ShortLink.cursorTs, hcreated, hcode]
        have hkey : e.link.listKey = last.listKey := by
          simp [ShortLink.listKey, hcreated, hcode]
        have hmem : e.link ∈ r.listing := mem_listing.mpr (link_mem_links he)
        obtain ⟨i, hi⟩ := List.mem_iff_getElem?.mp hmem
        rw [← hcursor, ← hkey, listStart_cursorOf hi,
          Paging.drop_eq_filter_of_pairwise (pairwise_listing r) hi]
        rfl
  · exact Or.inl (listSync_eq_none hfit)

end InMemoryRepo

end Shorty
