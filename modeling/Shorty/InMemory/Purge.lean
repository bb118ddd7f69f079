import Shorty.InMemory

/-!
# Shorty.InMemory.Purge

Purges of the in-memory store as operations on its two maps: which entries one drops,
what it leaves alone, how two of them compose, and that the order in which the map is
iterated does not show.
-/

namespace Shorty

namespace InMemoryRepo

variable {r r' : InMemoryRepo} {now : SystemTime}

/-- Stores with the same maps, in whatever order each is iterated. -/
structure SameMaps (r r' : InMemoryRepo) : Prop where
  get?_eq : ∀ code, r.inner.get? code = r'.inner.get? code
  stats_eq : ∀ code, r.stats.get code = r'.stats.get code

/-- A store without the entries that are expired, and their statistics. -/
structure Purged (now : SystemTime) (r r' : InMemoryRepo) : Prop where
  dropped : ∀ code, ∀ e ∈ r.inner.get? code, (∃ exp ∈ e.link.expiresAt, exp ≤ now) →
    r'.inner.get? code = none ∧ r'.stats.get code = none
  kept : ∀ code, ∀ e ∈ r.inner.get? code, (¬ ∃ exp ∈ e.link.expiresAt, exp ≤ now) →
    r'.inner.get? code = some e ∧ r'.stats.get code = r.stats.get code
  absent : ∀ code, r.inner.get? code = none →
    r'.inner.get? code = none ∧ r'.stats.get code = r.stats.get code

theorem isExpired_iff {link : ShortLink} :
    link.isExpired now = true ↔ ∃ exp ∈ link.expiresAt, exp ≤ now := by
  simp [ShortLink.isExpired, Option.any_eq_true]

/-- A link that is expired stays so. -/
theorem isExpired_mono {link : ShortLink} {t u : SystemTime} (h : t ≤ u)
    (hexp : link.isExpired t = true) : link.isExpired u = true := by
  rw [isExpired_iff] at hexp ⊢
  obtain ⟨exp, hmem, hle⟩ := hexp
  exact ⟨exp, hmem, hle.trans h⟩

/-! ## the entries that are left -/

theorem items_foldl_dropCode (codes : List String) (r : InMemoryRepo) :
    (codes.foldl dropCode r).inner.items = r.inner.items.filter (fun p => decide (p.1 ∉ codes)) := by
  induction codes generalizing r with
  | nil => simp
  | cons code codes ih =>
      have herase : (r.dropCode code).inner.items = r.inner.items.filter (fun p => decide (p.1 ≠ code)) := rfl
      rw [List.foldl_cons, ih, herase, List.filter_filter]
      congr 1
      funext p
      rw [Bool.eq_iff_iff]
      simp [and_comm]

/-- A purge keeps the entries that are not expired, in their order. -/
theorem items_purgeExpiredSync (r : InMemoryRepo) (now : SystemTime) :
    (r.purgeExpiredSync now).2.inner.items =
      r.inner.items.filter (fun p => !p.2.link.isExpired now) := by
  rw [purgeExpiredSync, items_foldl_dropCode]
  apply List.filter_congr
  rintro ⟨code, e⟩ hmem
  have hget : r.inner.get? code = some e := Table.get?_eq_some_iff.mpr hmem
  have hexpired : code ∈ r.expiredCodes now ↔ e.link.isExpired now = true := by
    rw [mem_expiredCodes, hget]
    simp
  rw [Bool.eq_iff_iff]
  simp [hexpired]

/-- The count of a purge is the number of its expired entries. -/
theorem fst_purgeExpiredSync (r : InMemoryRepo) (now : SystemTime) :
    (r.purgeExpiredSync now).1 = r.inner.items.countP (fun p => p.2.link.isExpired now) := by
  have hsize : (r.purgeExpiredSync now).1 =
      r.inner.items.length - (r.purgeExpiredSync now).2.inner.items.length := rfl
  have hall := List.length_eq_countP_add_countP (fun p : String × LinkEntry => p.2.link.isExpired now)
    (l := r.inner.items)
  rw [hsize, items_purgeExpiredSync, ← List.countP_eq_length_filter, hall]
  simp

theorem purged_purgeExpiredSync (r : InMemoryRepo) (now : SystemTime) :
    Purged now r (r.purgeExpiredSync now).2 := by
  constructor
  · intro code e he hexp
    rw [← isExpired_iff] at hexp
    rw [Option.mem_def] at he
    rw [get?_purgeExpiredSync, stats_get_purgeExpiredSync, he, Option.filter_some,
      if_pos (mem_expiredCodes.mpr ⟨e, he, hexp⟩)]
    simp [hexp]
  · intro code e he hlive
    rw [← isExpired_iff] at hlive
    rw [Option.mem_def] at he
    have hnot : code ∉ r.expiredCodes now := by
      rw [mem_expiredCodes, he]
      simpa using hlive
    rw [get?_purgeExpiredSync, stats_get_purgeExpiredSync, he, Option.filter_some, if_neg hnot]
    simp [hlive]
  · intro code hnone
    have hnot : code ∉ r.expiredCodes now := by
      rw [mem_expiredCodes, hnone]
      simp
    rw [get?_purgeExpiredSync, stats_get_purgeExpiredSync, hnone, if_neg hnot]
    exact ⟨rfl, rfl⟩

/-- What a purge leaves is settled by what there was. -/
theorem Purged.sameMaps {u u' : InMemoryRepo} (h : Purged now r u) (h' : Purged now r' u')
    (hsame : SameMaps r r') : SameMaps u u' := by
  have hboth : ∀ code, u.inner.get? code = u'.inner.get? code ∧ u.stats.get code = u'.stats.get code := by
    intro code
    cases he : r.inner.get? code with
    | none =>
        have he' : r'.inner.get? code = none := (hsame.get?_eq code).symm.trans he
        obtain ⟨hnone, hstats⟩ := h.absent code he
        obtain ⟨hnone', hstats'⟩ := h'.absent code he'
        exact ⟨hnone.trans hnone'.symm, hstats.trans ((hsame.stats_eq code).trans hstats'.symm)⟩
    | some e =>
        have he' : r'.inner.get? code = some e := (hsame.get?_eq code).symm.trans he
        by_cases hexp : ∃ exp ∈ e.link.expiresAt, exp ≤ now
        · obtain ⟨hnone, hstats⟩ := h.dropped code e he hexp
          obtain ⟨hnone', hstats'⟩ := h'.dropped code e he' hexp
          exact ⟨hnone.trans hnone'.symm, hstats.trans hstats'.symm⟩
        · obtain ⟨hkept, hstats⟩ := h.kept code e he hexp
          obtain ⟨hkept', hstats'⟩ := h'.kept code e he' hexp
          exact ⟨hkept.trans hkept'.symm, hstats.trans ((hsame.stats_eq code).trans hstats'.symm)⟩
  exact ⟨fun code => (hboth code).1, fun code => (hboth code).2⟩

theorem sameMaps_refl (r : InMemoryRepo) : SameMaps r r := ⟨fun _ => rfl, fun _ => rfl⟩

/-- A purge after an earlier one has done what it would have done at once. -/
theorem Purged.trans {u v : InMemoryRepo} {earlier : SystemTime} (h : Purged earlier r u)
    (h' : Purged now u v) (hle : earlier ≤ now) : Purged now r v := by
  constructor
  · intro code e he hexp
    by_cases hearly : ∃ exp ∈ e.link.expiresAt, exp ≤ earlier
    · obtain ⟨hnone, hstats⟩ := h.dropped code e he hearly
      obtain ⟨hnone', hstats'⟩ := h'.absent code hnone
      exact ⟨hnone', hstats'.trans hstats⟩
    · exact h'.dropped code e (h.kept code e he hearly).1 hexp
  · intro code e he hlive
    have hearly : ¬ ∃ exp ∈ e.link.expiresAt, exp ≤ earlier := by
      rintro ⟨exp, hmem, hexp⟩
      exact hlive ⟨exp, hmem, hexp.trans hle⟩
    obtain ⟨hkept, hstats⟩ := h.kept code e he hearly
    obtain ⟨hkept', hstats'⟩ := h'.kept code e hkept hlive
    exact ⟨hkept', hstats'.trans hstats⟩
  · intro code hnone
    obtain ⟨hnone', hstats⟩ := h.absent code hnone
    obtain ⟨hnone'', hstats'⟩ := h'.absent code hnone'
    exact ⟨hnone'', hstats'.trans hstats⟩

/-- The counts of two purges add up to that of the later one alone. -/
theorem fst_purgeExpiredSync_add (r : InMemoryRepo) {earlier : SystemTime} (hle : earlier ≤ now) :
    (r.purgeExpiredSync earlier).1 + ((r.purgeExpiredSync earlier).2.purgeExpiredSync now).1 =
      (r.purgeExpiredSync now).1 := by
  rw [fst_purgeExpiredSync, fst_purgeExpiredSync, fst_purgeExpiredSync, items_purgeExpiredSync,
    List.countP_filter]
  induction r.inner.items with
  | nil => rfl
  | cons p items ih =>
      simp only [List.countP_cons]
      cases hearly : p.2.link.isExpired earlier with
      | true =>
          simp only [isExpired_mono hle hearly, Bool.not_true, Bool.and_false, if_true,
            Bool.false_eq_true, if_false]
          omega
      | false =>
          simp only [Bool.not_false, Bool.and_true, Bool.false_eq_true, if_false]
          omega

/-- The count of a purge does not depend on the order of the map. -/
theorem fst_purgeExpiredSync_congr (hsame : SameMaps r r') (now : SystemTime) :
    (r.purgeExpiredSync now).1 = (r'.purgeExpiredSync now).1 := by
  rw [fst_purgeExpiredSync, fst_purgeExpiredSync]
  exact (Table.perm_of_get?_eq hsame.get?_eq).countP_eq _

/-- **Purges**: two in the order of their times are the later one; one drops the expired
entries with their statistics and nothing else; and the order in which the maps are
iterated does not show. -/
theorem purgeExpiredSync_laws (r : InMemoryRepo) (t₁ t₂ : SystemTime) (h : t₁ ≤ t₂) :
    SameMaps ((r.purgeExpiredSync t₁).2.purgeExpiredSync t₂).2 (r.purgeExpiredSync t₂).2 ∧
      (r.purgeExpiredSync t₁).1 + ((r.purgeExpiredSync t₁).2.purgeExpiredSync t₂).1 =
        (r.purgeExpiredSync t₂).1 ∧
      (∀ now, Purged now r (r.purgeExpiredSync now).2) ∧
      ∀ now (r' : InMemoryRepo), SameMaps r r' →
        SameMaps (r.purgeExpiredSync now).2 (r'.purgeExpiredSync now).2 ∧
          (r.purgeExpiredSync now).1 = (r'.purgeExpiredSync now).1 := by
  have htwice : Purged t₂ r ((r.purgeExpiredSync t₁).2.purgeExpiredSync t₂).2 :=
    (purged_purgeExpiredSync r t₁).trans (purged_purgeExpiredSync _ t₂) h
  refine ⟨?_, ?_, ?_, ?_⟩
  · exact htwice.sameMaps (purged_purgeExpiredSync r t₂) (sameMaps_refl r)
  · exact fst_purgeExpiredSync_add r h
  · exact purged_purgeExpiredSync r
  · intro now r' hsame
    exact ⟨(purged_purgeExpiredSync r now).sameMaps (purged_purgeExpiredSync r' now) hsame,
      fst_purgeExpiredSync_congr hsame now⟩

/-- A link that lives for twenty seconds, one that lives for a minute, and one for ever. -/
def threeLives : InMemoryRepo :=
  ((((new.insertSync ((ShortLink.new .UNIX_EPOCH "flash" "https://example.com/").withExpiresAt (.ofSecs 20))).2
    ).insertSync ((ShortLink.new .UNIX_EPOCH "promo2026" "https://example.com/").withExpiresAt (.ofSecs 60))).2
    ).insertSync (.new .UNIX_EPOCH "about" "https://example.com/") |>.2

/-- Purges after half a minute and after one and a half. -/
theorem purgeExpiredSync_laws_threeLives :
    (SameMaps ((threeLives.purgeExpiredSync (.ofSecs 30)).2.purgeExpiredSync (.ofSecs 90)).2
        (threeLives.purgeExpiredSync (.ofSecs 90)).2 ∧
      (threeLives.purgeExpiredSync (.ofSecs 30)).1 +
          ((threeLives.purgeExpiredSync (.ofSecs 30)).2.purgeExpiredSync (.ofSecs 90)).1 =
        (threeLives.purgeExpiredSync (.ofSecs 90)).1) ∧
    (threeLives.purgeExpiredSync (.ofSecs 30)).1 = 1 ∧ (threeLives.purgeExpiredSync (.ofSecs 90)).1 = 2 := by
  obtain ⟨hsame, hcount, _⟩ := purgeExpiredSync_laws threeLives (.ofSecs 30) (.ofSecs 90) (by decide)
  exact ⟨⟨hsame, hcount⟩, by decide, by decide⟩

end InMemoryRepo

end Shorty
