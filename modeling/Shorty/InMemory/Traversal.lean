import Shorty.Lib.Run
import Shorty.InMemory.Listing

/-!
# Shorty.InMemory.Traversal

A client walks through the listing page by page, following each cursor it is
given, while others change the store.  The source resumes at the position of the
link the cursor names, so the walk is right as long as that link is still there;
once it is removed or purged the position is lost and the walk starts over.

A code can be stored, removed and stored again, so a stored link is identified
by its code and by how often the code had been stored before; `born` keeps that
count.
-/

namespace Shorty

/-- A store, and a walk through its listing. -/
structure Traversal where
  repo : InMemoryRepo
  /-- How often a link has been stored under each code. -/
  born : String → Nat
  /-- Whether a code has been stored ever since the walk began. -/
  kept : String → Bool
  cursor : Option (String × String)
  /-- The links returned so far, each with the count of its code. -/
  returned : List (ShortLink × Nat)
  /-- Whether an empty page was reached. -/
  finished : Bool

/-- What happens next: another client changes the store, or the walk fetches a
page. -/
inductive TraversalStep where
  | op (op : RepoOp)
  | fetch

namespace Traversal

/-- A walk about to begin. -/
def start (r : InMemoryRepo) : Traversal where
  repo := r
  born := fun _ => 0
  kept := fun code => (r.inner.get? code).isSome
  cursor := none
  returned := []
  finished := false

/-- The walk after a change of the store. -/
def change (t : Traversal) (op : RepoOp) : Traversal :=
  let repo := t.repo.apply op
  { t with
    repo := repo
    born := fun code =>
      if t.repo.inner.get? code = none ∧ repo.inner.get? code ≠ none then t.born code + 1
      else t.born code
    kept := fun code => t.kept code && (repo.inner.get? code).isSome }

/-- The walk after a page.  A fetch that panics returns nothing. -/
def turn (t : Traversal) : Option ListPage → Traversal
  | none => t
  | some ([], _) => { t with finished := true }
  | some (link :: links, next) =>
      { t with
        cursor := next
        returned := t.returned ++ (link :: links).map (fun l => (l, t.born l.code)) }

def step (limit : Nat) (t : Traversal) : TraversalStep → Traversal
  | .op op => t.change op
  | .fetch => if t.finished then t else t.turn (t.repo.listSync limit t.cursor)

/-- The stored links returned so far. -/
def seen (t : Traversal) : List (String × Nat) := t.returned.map (fun p => (p.1.code, p.2))

/-- The link the walk resumes after. -/
def last (t : Traversal) : Option ShortLink := t.returned.getLast?.map Prod.fst

/-- No stored link was returned twice, and a walk that reached an empty page has
returned every link that was stored throughout. -/
structure Exact (t : Traversal) : Prop where
  once : t.seen.Nodup
  complete : t.finished = true → ∀ code, t.kept code = true → (code, 0) ∈ t.seen

/-- Every page but the first is fetched while the link that was returned last is still
stored under its code with its very creation time, the fraction of a second included.
The cursor names whole seconds only. -/
def CursorStored (t : Traversal) : TraversalStep → Prop
  | .op _ => True
  | .fetch => t.finished = true ∨ ∀ link ∈ t.last,
      (t.repo.inner.get? link.code).map (fun e => e.link.createdAt) = some link.createdAt

/-- What a walk that never lost its place has done so far. -/
structure Placed (t : Traversal) : Prop where
  cursor_eq : t.cursor = t.last.map InMemoryRepo.cursorOf
  once : t.seen.Nodup
  descending : t.returned.Pairwise (fun p q => q.1.listKey < p.1.listKey)
  /-- A returned link that is still stored has the creation time it had. -/
  known : ∀ p ∈ t.returned, p.2 ≤ t.born p.1.code ∧
    (p.2 = t.born p.1.code → ∀ e, t.repo.inner.get? p.1.code = some e →
      e.link.createdAt = p.1.createdAt)
  /-- A link stored throughout was returned or lies ahead. -/
  ahead : ∀ code, t.kept code = true → t.born code = 0 ∧
    ∃ e, t.repo.inner.get? code = some e ∧ ((code, 0) ∈ t.seen ∨
      t.finished = false ∧
        Paging.below ShortLink.listKey (t.last.map ShortLink.listKey) e.link = true)

theorem Placed.exact {t : Traversal} (h : Placed t) : Exact t where
  once := h.once
  complete := by
    intro hfin code hkept
    obtain ⟨_, _, _, hseen | ⟨hmore, _⟩⟩ := h.ahead code hkept
    · exact hseen
    · rw [hfin] at hmore
      cases hmore

theorem placed_start (r : InMemoryRepo) : Placed (start r) where
  cursor_eq := rfl
  once := List.nodup_nil
  descending := List.Pairwise.nil
  known := fun _ hp => absurd hp List.not_mem_nil
  ahead := by
    intro code hkept
    obtain ⟨e, he⟩ := Option.isSome_iff_exists.mp hkept
    exact ⟨rfl, e, he, Or.inr ⟨rfl, rfl⟩⟩

/-! ## a change of the store -/

/-- A change stores under a free code or leaves the creation time of what is
stored. -/
theorem createdAt_of_apply {r : InMemoryRepo} {op : RepoOp} {code : String} {e : LinkEntry}
    (h : (r.apply op).inner.get? code = some e) :
    r.inner.get? code = none ∨
      ∃ e₀, r.inner.get? code = some e₀ ∧ e.link.createdAt = e₀.link.createdAt := by
  have hchange := InMemoryRepo.entryChange_apply r op code
  rw [h] at hchange
  generalize r.inner.get? code = before at hchange
  cases hchange with
  | same => exact Or.inr ⟨e, rfl, rfl⟩
  | stored link _ => exact Or.inl rfl
  | updated e₀ now url => exact Or.inr ⟨e₀, rfl, rfl⟩
  | hit e₀ => exact Or.inr ⟨e₀, rfl, rfl⟩

variable {t : Traversal} {limit : Nat}

theorem born_le_change (t : Traversal) (op : RepoOp) (code : String) :
    t.born code ≤ (t.change op).born code := by
  simp only [change]
  split <;> omega

theorem born_change_of_stored {op : RepoOp} {code : String} {e : LinkEntry}
    (h : t.repo.inner.get? code = some e) : (t.change op).born code = t.born code := by
  simp [change, h]

/-- A change that stores anew counts. -/
theorem born_change_of_absent {op : RepoOp} {code : String} {e : LinkEntry}
    (h : t.repo.inner.get? code = none) (h' : (t.repo.apply op).inner.get? code = some e) :
    (t.change op).born code = t.born code + 1 := by
  simp [change, h, h']

theorem placed_change (h : Placed t) (op : RepoOp) : Placed (t.change op) where
  cursor_eq := h.cursor_eq
  once := h.once
  descending := h.descending
  known := by
    intro p hp
    obtain ⟨hle, hcreated⟩ := h.known p hp
    have hmono := born_le_change t op p.1.code
    refine ⟨by omega, fun hnow e he => ?_⟩
    rcases createdAt_of_apply he with hnone | ⟨e₀, he₀, heq⟩
    · have := born_change_of_absent hnone he
      omega
    · rw [heq]
      exact hcreated (by omega) e₀ he₀
  ahead := by
    intro code hkept
    obtain ⟨hkept, hstored⟩ := Bool.and_eq_true_iff.mp hkept
    obtain ⟨e, he⟩ := Option.isSome_iff_exists.mp hstored
    obtain ⟨hborn, e₀, he₀, hplace⟩ := h.ahead code hkept
    refine ⟨(born_change_of_stored he₀).trans hborn, e, he, ?_⟩
    rcases createdAt_of_apply he with hnone | ⟨e₁, he₁, heq⟩
    · rw [hnone] at he₀
      cases he₀
    · have hkey : e.link.listKey = e₀.link.listKey := by
        rw [he₀] at he₁
        cases he₁
        rw [ShortLink.listKey, heq, InMemoryRepo.code_of_get? he, ShortLink.listKey,
          InMemoryRepo.code_of_get? he₀]
      rw [Paging.below, hkey]
      exact hplace

/-! ## a page -/

theorem mem_seen {code : String} {n : Nat} :
    (code, n) ∈ t.seen ↔ ∃ p ∈ t.returned, p.1.code = code ∧ p.2 = n := by
  simp [seen, Prod.ext_iff]

/-- Where the link it resumes after is stored, a walk resumes below its key. -/
theorem resumes (h : Placed t) (hc : ∀ link ∈ t.last,
    (t.repo.inner.get? link.code).map (fun e => e.link.createdAt) = some link.createdAt) :
    InMemoryRepo.Resumes t.repo t.cursor (t.last.map ShortLink.listKey) := by
  rw [h.cursor_eq]
  cases hlast : t.last with
  | none => exact .front
  | some link =>
      obtain ⟨e, he, hcreated⟩ := Option.map_eq_some_iff.mp (hc link hlast)
      exact .after link e he hcreated

/-- What lies below the last returned link lies below every returned link. -/
theorem lt_of_below (h : Placed t) {link : ShortLink}
    (hb : Paging.below ShortLink.listKey (t.last.map ShortLink.listKey) link = true)
    {p : ShortLink × Nat} (hp : p ∈ t.returned) : link.listKey < p.1.listKey := by
  have hlinks : (t.returned.map Prod.fst).Pairwise (fun a b => b.listKey < a.listKey) :=
    List.pairwise_map.mpr h.descending
  rw [last, ← List.getLast?_map] at hb
  exact Paging.lt_of_below_getLast hlinks hb (List.mem_map_of_mem hp)

/-- The walk after the links of a page. -/
def extend (t : Traversal) (next : Option (String × String)) (page : List ShortLink) : Traversal :=
  { t with
    cursor := next
    returned := t.returned ++ page.map (fun l => (l, t.born l.code)) }

theorem mem_returned_extend {next : Option (String × String)} {page : List ShortLink}
    {p : ShortLink × Nat} : p ∈ (t.extend next page).returned ↔
      p ∈ t.returned ∨ p.1 ∈ page ∧ p.2 = t.born p.1.code := by
  simp only [extend, List.mem_append, List.mem_map]
  constructor
  · rintro (hp | ⟨l, hl, rfl⟩)
    · exact Or.inl hp
    · exact Or.inr ⟨hl, rfl⟩
  · rintro (hp | ⟨hp, hn⟩)
    · exact Or.inl hp
    · exact Or.inr ⟨p.1, hp, Prod.ext rfl hn.symm⟩

theorem last_extend {next : Option (String × String)} {page : List ShortLink} (hne : page ≠ []) :
    (t.extend next page).last = page.getLast? := by
  have hmap : page.map (fun l => (l, t.born l.code)) ≠ [] := by simpa using hne
  rw [last, extend, List.getLast?_append_of_ne_nil _ hmap, List.getLast?_map, Option.map_map]
  exact Option.map_id'

section Extend

variable {page : List ShortLink} {next : Option (String × String)} (h : Placed t)
  (hstored : ∀ l ∈ page, l ∈ t.repo.links)
  (hbelow : ∀ l ∈ page, Paging.below ShortLink.listKey (t.last.map ShortLink.listKey) l = true)
  (hpw : page.Pairwise (fun a b => b.listKey < a.listKey))

include h hstored hbelow in
/-- A link of the page was not returned before: it has the key it had, which is
below every key returned before. -/
theorem not_mem_seen_of_mem_page {l : ShortLink} (hl : l ∈ page) :
    (l.code, t.born l.code) ∉ t.seen := by
  intro hseen
  obtain ⟨p, hp, hcode, hborn⟩ := mem_seen.mp hseen
  obtain ⟨e, he, hlink⟩ := InMemoryRepo.mem_links.mp (hstored l hl)
  rw [← hcode] at hborn he
  have hcreated : e.link.createdAt = p.1.createdAt := (h.known p hp).2 hborn e he
  rw [hlink] at hcreated
  have hlt : l.listKey < p.1.listKey := lt_of_below h (hbelow l hl) hp
  rw [ShortLink.listKey, hcreated, ← hcode] at hlt
  exact lt_irrefl _ hlt

include h hstored hbelow hpw in
theorem nodup_seen_extend : (t.extend next page).seen.Nodup := by
  have hdistinct : page.Nodup := hpw.imp (fun {a b} hlt (heq : a = b) => by
    rw [heq] at hlt
    exact lt_irrefl _ hlt)
  have hpage : (page.map (fun l => (l.code, t.born l.code))).Nodup := by
    refine List.Nodup.map_on ?_ hdistinct
    intro a ha b hb heq
    exact InMemoryRepo.eq_of_code_eq (hstored a ha) (hstored b hb) (congrArg Prod.fst heq)
  have hseen : (t.extend next page).seen = t.seen ++ page.map (fun l => (l.code, t.born l.code)) := by
    simp [seen, extend]
  rw [hseen, List.nodup_append]
  refine ⟨h.once, hpage, ?_⟩
  intro id hid id' hid' heq
  obtain ⟨l, hl, rfl⟩ := List.mem_map.mp hid'
  rw [heq] at hid
  exact not_mem_seen_of_mem_page h hstored hbelow hl hid

include h hbelow hpw in
theorem descending_extend :
    (t.extend next page).returned.Pairwise (fun p q => q.1.listKey < p.1.listKey) := by
  rw [extend, List.pairwise_append]
  refine ⟨h.descending, List.pairwise_map.mpr hpw, ?_⟩
  intro p hp q hq
  obtain ⟨l, hl, rfl⟩ := List.mem_map.mp hq
  exact lt_of_below h (hbelow l hl) hp

include h in
/-- A link stored throughout that was still ahead is on the page, or below it. -/
theorem ahead_extend (hne : page ≠ [])
    (hrest : ∀ l ∈ t.repo.links,
      Paging.below ShortLink.listKey (t.last.map ShortLink.listKey) l = true → l ∉ page →
        ∃ b, page.getLast? = some b ∧ l.listKey < b.listKey)
    {code : String} (hkept : t.kept code = true) :
    t.born code = 0 ∧ ∃ e, t.repo.inner.get? code = some e ∧
      ((code, 0) ∈ (t.extend next page).seen ∨ t.finished = false ∧
        Paging.below ShortLink.listKey
          ((t.extend next page).last.map ShortLink.listKey) e.link = true) := by
  obtain ⟨hborn, e, he, hplace⟩ := h.ahead code hkept
  have hcode : e.link.code = code := InMemoryRepo.code_of_get? he
  refine ⟨hborn, e, he, ?_⟩
  rcases hplace with hseen | ⟨hmore, hb⟩
  · left
    obtain ⟨p, hp, hp'⟩ := mem_seen.mp hseen
    exact mem_seen.mpr ⟨p, mem_returned_extend.mpr (Or.inl hp), hp'⟩
  · by_cases hin : e.link ∈ page
    · left
      have hreturned : (e.link, 0) ∈ (t.extend next page).returned :=
        mem_returned_extend.mpr (Or.inr ⟨hin, by rw [hcode, hborn]⟩)
      exact mem_seen.mpr ⟨(e.link, 0), hreturned, hcode, rfl⟩
    · right
      obtain ⟨b, hb, hlt⟩ := hrest e.link (InMemoryRepo.link_mem_links he) hb hin
      refine ⟨hmore, ?_⟩
      rw [last_extend hne, hb]
      exact (Paging.below_some _ _).mpr hlt

end Extend

/-- A page of stored links below the last returned one, in descending order and
leaving out nothing before its own last link, keeps a walk in its place. -/
theorem placed_extend (h : Placed t) {page : List ShortLink} (hne : page ≠ [])
    (hstored : ∀ l ∈ page, l ∈ t.repo.links)
    (hbelow : ∀ l ∈ page, Paging.below ShortLink.listKey (t.last.map ShortLink.listKey) l = true)
    (hpw : page.Pairwise (fun a b => b.listKey < a.listKey))
    (hrest : ∀ l ∈ t.repo.links,
      Paging.below ShortLink.listKey (t.last.map ShortLink.listKey) l = true → l ∉ page →
        ∃ b, page.getLast? = some b ∧ l.listKey < b.listKey) :
    Placed (t.extend (page.getLast?.map InMemoryRepo.cursorOf) page) where
  cursor_eq := by
    rw [last_extend hne]
    rfl
  once := nodup_seen_extend h hstored hbelow hpw
  descending := descending_extend h hbelow hpw
  known := by
    intro p hp
    rcases mem_returned_extend.mp hp with hp | ⟨hp, hn⟩
    · exact h.known p hp
    · refine ⟨Nat.le_of_eq hn, fun _ e he => ?_⟩
      obtain ⟨e', he', heq⟩ := InMemoryRepo.mem_links.mp (hstored p.1 hp)
      have hsame : e = e' := Option.some.inj (he.symm.trans he')
      rw [hsame, heq]
  ahead := fun _ hkept => ahead_extend h hne hrest hkept

/-- The walk after a keyset page. -/
theorem placed_turn (hl : 1 ≤ limit) (h : Placed t) {page : List ShortLink}
    (hpage : page =
      Paging.page ShortLink.listKey limit (t.last.map ShortLink.listKey) t.repo.links) :
    Placed (t.turn (some (page, page.getLast?.map InMemoryRepo.cursorOf))) := by
  have hnodup := InMemoryRepo.nodup_listKey_links t.repo
  cases hp : page with
  | nil =>
      rw [hp] at hpage
      refine ⟨h.cursor_eq, h.once, h.descending, h.known, fun code hkept => ?_⟩
      obtain ⟨hborn, e, he, hplace⟩ := h.ahead code hkept
      refine ⟨hborn, e, he, Or.inl ?_⟩
      rcases hplace with hseen | ⟨_, hb⟩
      · exact hseen
      · exact absurd hb (Paging.not_below_of_page_eq_nil hl hnodup hpage.symm
          (InMemoryRepo.link_mem_links he))
  | cons link links =>
      rw [turn, ← hp]
      apply placed_extend h
      · rw [hp]
        exact List.cons_ne_nil link links
      · intro l hmem
        exact Paging.mem_of_mem_page (hpage ▸ hmem)
      · intro l hmem
        exact Paging.below_of_mem_page (hpage ▸ hmem)
      · rw [hpage]
        exact Paging.pairwise_page hnodup
      · intro l hmem hb hout
        rw [hpage] at hout ⊢
        exact Paging.lt_getLast_of_not_mem_page hl hnodup hmem hb hout

theorem placed_step (hl : 1 ≤ limit) (h : Placed t) (s : TraversalStep) (hc : CursorStored t s) :
    Placed (t.step limit s) := by
  cases s with
  | op op => exact placed_change h op
  | fetch =>
      cases hfin : t.finished with
      | true =>
          rw [step, hfin]
          exact h
      | false =>
          have hcursor := hc.resolve_left (by rw [hfin]; exact Bool.false_ne_true)
          rw [step, hfin]
          rcases InMemoryRepo.listSync_eq_page (resumes h hcursor) with hpage | hpage
          · rw [hpage]
            exact h
          · rw [hpage]
            exact placed_turn hl h rfl

/-! ## walks -/

/-- **Paging over a changing store**: a walk that fetches each page while the link that
was returned last is still stored, with its very creation time, returns no stored link
twice and, once it reaches an empty page, has returned every link that was stored
throughout. -/
theorem throughout_exact (r : InMemoryRepo) (limit : Nat) (hl : 1 ≤ limit)
    (steps : List TraversalStep) (h : Run.Along (step limit) CursorStored (start r) steps) :
    Run.Throughout (step limit) Exact (start r) steps := by
  have hplaced : Run.Throughout (step limit) Placed (start r) steps :=
    Run.throughout_of_step (fun _ s hp hc => placed_step hl hp s hc) (placed_start r) h
  exact hplaced.mono (fun _ => Placed.exact)

/-- Three links, created a second apart. -/
def threeLinks : InMemoryRepo :=
  Run.reach InMemoryRepo.apply .new [
    .insert (.new (.ofSecs 1) "link-a" "https://example.com/a"),
    .insert (.new (.ofSecs 2) "link-b" "https://example.com/b"),
    .insert (.new (.ofSecs 3) "link-c" "https://example.com/c")]

/-- Pages of two links; a link that lies behind the walk is removed on the way. -/
theorem throughout_exact_threeLinks :
    Run.Throughout (step 2) Exact (start threeLinks)
      [.fetch, .op (.remove "link-c"), .fetch, .fetch] :=
  throughout_exact threeLinks 2 (by decide) _
    ⟨Or.inr (by decide), trivial, Or.inr (by decide), Or.inr (by decide), trivial⟩

/-- The link the walk resumes after is removed: the walk starts over and returns
the newest link again. -/
theorem not_throughout_exact :
    ¬ ∀ (r : InMemoryRepo) (limit : Nat) (steps : List TraversalStep), 1 ≤ limit →
      Run.Throughout (step limit) Exact (start r) steps := by
  intro h
  have hlast := (h threeLinks 2 [.fetch, .op (.remove "link-b"), .fetch] (by decide)).last
  have hseen : (Run.reach (step 2) (start threeLinks)
      [.fetch, .op (.remove "link-b"), .fetch]).seen =
      [("link-c", 0), ("link-b", 0), ("link-c", 0), ("link-a", 0)] := by decide
  have honce := hlast.once
  rw [hseen] at honce
  exact absurd honce (by decide)

end Traversal

end Shorty
