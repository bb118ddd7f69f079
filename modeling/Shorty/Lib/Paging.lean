import Mathlib.Data.List.Sort
import Mathlib.Data.List.Nodup
import Mathlib.Order.Basic

/-!
# Shorty.Lib.Paging

Listing a collection in descending key order, a page at a time.

`page key limit bound l` is the first `limit` items of `l` whose key lies below
`bound` (no bound: the first items of all), in descending order.  A traversal
takes the key of the last item of one page as the bound of the next, on a
collection that may have changed in between.  What makes such a traversal
right is stated about a single page, so that it composes over any changes:

* `below_of_mem_page` and `pairwise_page` — a page stays strictly below its
  bound and goes strictly down;
* `lt_getLast_of_not_mem_page` — whatever lies below the bound and is not on the
  page lies below the page's last item;
* `drop_eq_filter_of_pairwise` — resuming after a listed item by position is
  resuming below its key.
-/

namespace Paging

variable {α κ : Type} [LinearOrder κ] (key : α → κ)

/-- The items in descending key order. -/
def descending (l : List α) : List α := l.insertionSort (fun a b => key b ≤ key a)

/-- Whether an item lies below a bound. -/
def below (bound : Option κ) (a : α) : Bool := bound.all (fun b => decide (key a < b))

/-- The first `limit` items below the bound, in descending order. -/
def page (limit : Nat) (bound : Option κ) (l : List α) : List α :=
  ((descending key l).filter (below key bound)).take limit

variable {key} {l l' : List α} {limit : Nat} {bound : Option κ}

@[simp] theorem below_none (a : α) : below key none a = true := rfl

@[simp] theorem below_some (b : κ) (a : α) : below key (some b) a = true ↔ key a < b := by
  simp [below]

/-! ## descending order -/

theorem descending_perm (l : List α) : (descending key l).Perm l :=
  List.perm_insertionSort _ l

@[simp] theorem mem_descending {a : α} : a ∈ descending key l ↔ a ∈ l :=
  (descending_perm l).mem_iff

@[simp] theorem length_descending : (descending key l).length = l.length :=
  (descending_perm l).length_eq

theorem pairwise_ge_descending (l : List α) :
    (descending key l).Pairwise (fun a b => key b ≤ key a) := by
  have : Std.Total (fun a b : α => key b ≤ key a) := ⟨fun a b => le_total (key b) (key a)⟩
  have : IsTrans α (fun a b : α => key b ≤ key a) := ⟨fun _ _ _ hab hbc => hbc.trans hab⟩
  exact List.pairwise_insertionSort _ l

/-- With distinct keys the order is strict. -/
theorem pairwise_descending (h : (l.map key).Nodup) :
    (descending key l).Pairwise (fun a b => key b < key a) := by
  have hne : (descending key l).Pairwise (fun a b => key a ≠ key b) :=
    List.pairwise_map.mp (((descending_perm l).map key).nodup_iff.mpr h)
  exact (pairwise_ge_descending l).imp₂ (fun _ _ hle hne => lt_of_le_of_ne hle hne.symm) hne

/-- A list that goes strictly down is determined by its items. -/
theorem eq_of_perm_of_pairwise (hp : l.Perm l') (h : l.Pairwise (fun a b => key b < key a))
    (h' : l'.Pairwise (fun a b => key b < key a)) : l = l' :=
  List.Perm.eq_of_pairwise (fun _ _ _ _ hab hba => absurd hba (lt_asymm hab)) h h' hp

/-- Filtering and listing commute. -/
theorem descending_filter (p : α → Bool) (h : (l.map key).Nodup) :
    descending key (l.filter p) = (descending key l).filter p := by
  have hf : ((l.filter p).map key).Nodup := h.sublist (List.filter_sublist.map key)
  refine eq_of_perm_of_pairwise ?_ (pairwise_descending hf) ((pairwise_descending h).filter p)
  exact (descending_perm _).trans ((descending_perm l).filter p).symm

/-- A list around one of its items. -/
theorem take_append_cons_drop {a : α} {i : Nat} (hi : l[i]? = some a) :
    l.take i ++ a :: l.drop (i + 1) = l := by
  obtain ⟨_, hget⟩ := List.getElem?_eq_some_iff.mp hi
  rw [← hget, List.getElem_cons_drop, List.take_append_drop]

/-- In a strictly descending list, what follows an item is what lies below it. -/
theorem drop_eq_filter_of_pairwise {a : α} {i : Nat} (h : l.Pairwise (fun a b => key b < key a))
    (hi : l[i]? = some a) : l.drop (i + 1) = l.filter (below key (some (key a))) := by
  have hsplit := take_append_cons_drop hi
  rw [← hsplit] at h
  obtain ⟨_, htail, hcross⟩ := List.pairwise_append.mp h
  have hbefore : (l.take i).filter (below key (some (key a))) = [] := by
    rw [List.filter_eq_nil_iff]
    intro b hb
    rw [below_some]
    exact lt_asymm (hcross b hb a List.mem_cons_self)
  have hafter : (l.drop (i + 1)).filter (below key (some (key a))) = l.drop (i + 1) := by
    rw [List.filter_eq_self]
    intro b hb
    rw [below_some]
    exact List.rel_of_pairwise_cons htail hb
  have hself : ¬ below key (some (key a)) a = true := by simp
  conv_rhs => rw [← hsplit]
  rw [List.filter_append, List.filter_cons_of_neg hself, hbefore, hafter, List.nil_append]

/-- In a strictly descending list, the position of an item is the number of items
above it. -/
theorem length_above_of_pairwise {a : α} {i : Nat} (h : l.Pairwise (fun a b => key b < key a))
    (hi : l[i]? = some a) : (l.filter (fun b => decide (key a < key b))).length = i := by
  have hlength : i < l.length := (List.getElem?_eq_some_iff.mp hi).1
  have hsplit := take_append_cons_drop hi
  rw [← hsplit] at h
  obtain ⟨_, htail, hcross⟩ := List.pairwise_append.mp h
  have hbefore : (l.take i).filter (fun b => decide (key a < key b)) = l.take i := by
    rw [List.filter_eq_self]
    intro b hb
    exact decide_eq_true (hcross b hb a List.mem_cons_self)
  have hafter : (a :: l.drop (i + 1)).filter (fun b => decide (key a < key b)) = [] := by
    rw [List.filter_eq_nil_iff]
    intro b hb hlt
    rcases List.mem_cons.mp hb with rfl | hb
    · exact lt_irrefl _ (of_decide_eq_true hlt)
    · exact lt_asymm (List.rel_of_pairwise_cons htail hb) (of_decide_eq_true hlt)
  rw [← hsplit, List.filter_append, hbefore, hafter, List.append_nil, List.length_take]
  omega

/-! ## the front of a listing -/

/-- The keys of a listing are the same for every order of the items, also where items
share a key. -/
theorem map_descending_eq_of_perm (hp : l.Perm l') :
    (descending key l).map key = (descending key l').map key := by
  have hkeys : ((descending key l).map key).Perm ((descending key l').map key) :=
    ((descending_perm l).trans (hp.trans (descending_perm l').symm)).map key
  have hl : ((descending key l).map key).Pairwise (fun a b => b ≤ a) :=
    List.pairwise_map.mpr (pairwise_ge_descending l)
  have hl' : ((descending key l').map key).Pairwise (fun a b => b ≤ a) :=
    List.pairwise_map.mpr (pairwise_ge_descending l')
  exact List.Perm.eq_of_pairwise (fun _ _ _ _ hba hab => le_antisymm hab hba) hl hl' hkeys

/-- In an ordered list everything at the front comes before what the front leaves out. -/
theorem rel_of_not_mem_take {R : α → α → Prop} {a b : α} {n : Nat} (h : l.Pairwise R) (ha : a ∈ l)
    (hout : a ∉ l.take n) (hb : b ∈ l.take n) : R b a := by
  rw [← List.take_append_drop n l] at h ha
  have hdrop : a ∈ l.drop n := (List.mem_append.mp ha).resolve_left hout
  exact (List.pairwise_append.mp h).2.2 b hb a hdrop

/-- Whatever the front of a listing leaves out is no higher than what is on it. -/
theorem le_of_not_mem_take {a b : α} {n : Nat} (ha : a ∈ l) (hout : a ∉ (descending key l).take n)
    (hb : b ∈ (descending key l).take n) : key a ≤ key b :=
  rel_of_not_mem_take (R := fun a b => key b ≤ key a) (pairwise_ge_descending l)
    (mem_descending.mpr ha) hout hb

/-! ## one page -/

/-- An item is on a page when it lies below the bound with fewer items than the
limit in between. -/
theorem mem_page_iff {a : α} (hn : (l.map key).Nodup) : a ∈ page key limit bound l ↔
    (a ∈ l ∧ below key bound a = true) ∧
      (l.filter (fun b => below key bound b && decide (key a < key b))).length < limit := by
  have hpw := (pairwise_descending hn).filter (below key bound)
  have hcount : (l.filter (fun b => below key bound b && decide (key a < key b))).length =
      (((descending key l).filter (below key bound)).filter
        (fun b => decide (key a < key b))).length := by
    have hand : (fun b => below key bound b && decide (key a < key b)) =
        fun b => decide (key a < key b) && below key bound b := funext (fun b => Bool.and_comm _ _)
    have hperm : (descending key l).Perm l := descending_perm l
    rw [List.filter_filter, hand]
    exact ((hperm.filter _).length_eq).symm
  have hmem : a ∈ l ∧ below key bound a = true ↔ a ∈ (descending key l).filter (below key bound) := by
    rw [List.mem_filter, mem_descending]
  rw [page, hcount, hmem]
  generalize (descending key l).filter (below key bound) = f at hpw
  rw [List.mem_take_iff_getElem]
  constructor
  · rintro ⟨i, hi, rfl⟩
    refine ⟨List.getElem_mem _, ?_⟩
    rw [length_above_of_pairwise hpw (List.getElem?_eq_getElem (by omega))]
    omega
  · rintro ⟨ha, hlt⟩
    obtain ⟨i, hi⟩ := List.mem_iff_getElem?.mp ha
    rw [length_above_of_pairwise hpw hi] at hlt
    obtain ⟨hi', hget⟩ := List.getElem?_eq_some_iff.mp hi
    exact ⟨i, by omega, hget⟩

theorem mem_of_mem_page {a : α} (h : a ∈ page key limit bound l) : a ∈ l :=
  mem_descending.mp (List.mem_of_mem_filter (List.mem_of_mem_take h))

theorem below_of_mem_page {a : α} (h : a ∈ page key limit bound l) : below key bound a = true :=
  List.of_mem_filter (List.mem_of_mem_take h)

theorem pairwise_page (h : (l.map key).Nodup) :
    (page key limit bound l).Pairwise (fun a b => key b < key a) :=
  ((pairwise_descending h).filter _).sublist (List.take_sublist _ _)

/-- An item below the bound that the page leaves out lies below the page's last
item; in particular the page is not empty then. -/
theorem lt_getLast_of_not_mem_page {a : α} (hl : 0 < limit) (hn : (l.map key).Nodup) (ha : a ∈ l)
    (hb : below key bound a = true) (hout : a ∉ page key limit bound l) :
    ∃ b, (page key limit bound l).getLast? = some b ∧ key a < key b := by
  have hmem : a ∈ (descending key l).filter (below key bound) :=
    List.mem_filter.mpr ⟨mem_descending.mpr ha, hb⟩
  have hpw := (pairwise_descending hn).filter (below key bound)
  rw [page] at hout ⊢
  generalize (descending key l).filter (below key bound) = f at hmem hpw hout ⊢
  have hne : f.take limit ≠ [] := by
    intro h
    rw [List.take_eq_nil_iff] at h
    cases h with
    | inl hzero => omega
    | inr hnil => simp [hnil] at hmem
  exact ⟨(f.take limit).getLast hne, List.getLast?_eq_some_getLast hne,
    rel_of_not_mem_take (R := fun a b => key b < key a) hpw hmem hout (List.getLast_mem hne)⟩

/-- An empty page means that nothing is left below the bound. -/
theorem not_below_of_page_eq_nil {a : α} (hl : 0 < limit) (hn : (l.map key).Nodup)
    (hp : page key limit bound l = []) (ha : a ∈ l) : ¬ below key bound a = true := by
  intro hb
  have hout : a ∉ page key limit bound l := by rw [hp]; exact List.not_mem_nil
  obtain ⟨b, hlast, _⟩ := lt_getLast_of_not_mem_page hl hn ha hb hout
  rw [hp] at hlast
  cases hlast

/-! ## a walk, page after page -/

/-- What lies below the last of a descending list lies below all of it. -/
theorem lt_of_below_getLast {a b : α} (h : l.Pairwise (fun a b => key b < key a))
    (ha : below key (l.getLast?.map key) a = true) (hb : b ∈ l) : key a < key b := by
  obtain ⟨bottom, hlast⟩ : ∃ bottom, l.getLast? = some bottom :=
    List.getLast?_isSome.mpr (List.ne_nil_of_mem hb) |> Option.isSome_iff_exists.mp
  rw [hlast, Option.map_some, below_some] at ha
  obtain ⟨front, rfl⟩ := List.getLast?_eq_some_iff.mp hlast
  rcases List.mem_append.mp hb with hb | hb
  · have hstep : key bottom < key b :=
      (List.pairwise_append.mp h).2.2 b hb bottom (List.mem_singleton_self bottom)
    exact ha.trans hstep
  · rw [List.mem_singleton.mp hb]
    exact ha

/-- Descending items below the last of a descending list continue it. -/
theorem pairwise_append_of_below (h : l.Pairwise (fun a b => key b < key a))
    (h' : l'.Pairwise (fun a b => key b < key a))
    (hbelow : ∀ a ∈ l', below key (l.getLast?.map key) a = true) :
    (l ++ l').Pairwise (fun a b => key b < key a) := by
  rw [List.pairwise_append]
  exact ⟨h, h', fun b hb a ha => lt_of_below_getLast h (hbelow a ha) hb⟩

/-! ## dropping items -/

section Drop

variable {β : Type} {f : α → β} {p : α → Bool} {k : Nat}

theorem take_filter_of_forall (h : ∀ a ∈ l.take k, p a = true) : (l.filter p).take k = l.take k := by
  have hfilter : l.filter p = l.take k ++ (l.drop k).filter p := by
    conv_lhs => rw [← List.take_append_drop k l]
    rw [List.filter_append, List.filter_eq_self.mpr h]
  rw [hfilter]
  rcases Nat.le_total k l.length with hle | hle
  · rw [List.take_left' (by rw [List.length_take]; omega)]
  · rw [List.drop_eq_nil_of_le hle, List.filter_nil, List.append_nil, List.take_take, Nat.min_self]

/-- Dropping items from a list shows on its first ones exactly when one of them is
dropped; `f` is what shows of an item. -/
theorem map_take_filter_eq_iff (hn : (l.map f).Nodup) :
    ((l.filter p).take k).map f = (l.take k).map f ↔ ∀ a ∈ l.take k, p a = true := by
  constructor
  · intro h a ha
    have hmem : f a ∈ ((l.filter p).take k).map f := by
      rw [h]
      exact List.mem_map_of_mem ha
    obtain ⟨b, hb, hfb⟩ := List.mem_map.mp hmem
    obtain ⟨hbl, hpb⟩ := List.mem_filter.mp (List.mem_of_mem_take hb)
    rwa [List.inj_on_of_nodup_map hn hbl (List.mem_of_mem_take ha) hfb] at hpb
  · intro h
    rw [take_filter_of_forall h]

/-- Starting over because an item was dropped shows exactly when an item before it
is left or one of the next items is dropped. -/
theorem map_take_filter_eq_map_take_drop_iff (hn : (l.map f).Nodup) {a : α} {i : Nat}
    (hi : l[i]? = some a) (ha : p a = false) (hk : 0 < k) :
    ((l.filter p).take k).map f = ((l.drop (i + 1)).take k).map f ↔
      (∀ b ∈ l.take i, p b = false) ∧ ∀ b ∈ (l.drop (i + 1)).take k, p b = true := by
  have hsplit := take_append_cons_drop hi
  have hfilter : l.filter p = (l.take i).filter p ++ (l.drop (i + 1)).filter p := by
    conv_lhs => rw [← hsplit]
    rw [List.filter_append, List.filter_cons_of_neg (by simp [ha])]
  have hdrop : ((l.drop (i + 1)).map f).Nodup := hn.sublist ((List.drop_sublist _ _).map f)
  by_cases hbefore : ∀ b ∈ l.take i, p b = false
  · have hnil : (l.take i).filter p = [] := by
      rw [List.filter_eq_nil_iff]
      intro b hb
      simp [hbefore b hb]
    rw [hfilter, hnil, List.nil_append, map_take_filter_eq_iff hdrop]
    exact ⟨fun h => ⟨hbefore, h⟩, fun h => h.2⟩
  · -- the first item that is left comes before `a`, so it is not among the next ones
    refine ⟨fun h => ?_, fun h => absurd h.1 hbefore⟩
    simp only [not_forall, Bool.not_eq_false] at hbefore
    obtain ⟨b, hb, hpb⟩ := hbefore
    obtain ⟨c, cs, hcs⟩ := List.exists_cons_of_ne_nil
      (List.ne_nil_of_mem (List.mem_filter.mpr ⟨hb, hpb⟩))
    obtain ⟨n, rfl⟩ := Nat.exists_eq_succ_of_ne_zero (Nat.pos_iff_ne_zero.mp hk)
    have hc : c ∈ l.take i := List.mem_of_mem_filter (hcs ▸ List.mem_cons_self)
    have hmem : f c ∈ ((l.drop (i + 1)).take (n + 1)).map f := by
      rw [← h, hfilter, hcs]
      exact List.mem_cons_self
    obtain ⟨d, hd, hfd⟩ := List.mem_map.mp hmem
    have hd' : d ∈ l.drop (i + 1) := List.mem_of_mem_take hd
    rw [List.inj_on_of_nodup_map hn (List.mem_of_mem_drop hd') (List.mem_of_mem_take hc) hfd] at hd'
    rw [← hsplit] at hn
    have hdisjoint := (List.nodup_append.mp hn.of_map).2.2
    exact absurd rfl (hdisjoint c hc c (List.mem_cons_of_mem a hd'))

end Drop

/-! ## following tokens -/

/-- The last item of a stretch of a list. -/
theorem getLast?_take_drop {i k : Nat} (hk : 0 < k) (hi : i < l.length) :
    ((l.drop i).take k).getLast? = l[min (i + k) l.length - 1]? := by
  rw [List.getLast?_eq_getElem?, List.getElem?_take, List.length_take, List.length_drop,
    if_pos (by omega), List.getElem?_drop]
  congr 1
  omega

section Walk

variable {τ : Type} {fetch : Nat → Option τ → Option (List α × Option τ)} {token : Option τ}

/-- Fetch pages, each with the token the page before it came with, up to the
first empty page: what was fetched, or `none` when a fetch fails or the fetches
run out.  A fetch is given the number of fetches left. -/
def walk (fetch : Nat → Option τ → Option (List α × Option τ)) : Nat → Option τ → Option (List α)
  | 0, _ => none
  | n + 1, token =>
      match fetch n token with
      | none => none
      | some ([], _) => some []
      | some (a :: as, next) => (walk fetch n next).map ((a :: as) ++ ·)

theorem walk_of_nil {n : Nat} {next : Option τ} (h : fetch n token = some ([], next)) :
    walk fetch (n + 1) token = some [] := by
  rw [walk, h]

theorem walk_of_ne_nil {n : Nat} {page : List α} {next : Option τ} (hne : page ≠ [])
    (h : fetch n token = some (page, next)) :
    walk fetch (n + 1) token = (walk fetch n next).map (page ++ ·) := by
  rw [walk, h]
  cases page with
  | nil => exact absurd rfl hne
  | cons a as => rfl

/-- **Enumeration rule**: let `Stands i token` say that a token stands for
position `i` of a list.  If such a token fetches the next `k > 0` items and a
token that stands behind them, a walk with more fetches than items left
enumerates the rest of the list. -/
theorem walk_eq_drop {k : Nat} (hk : 0 < k) (Stands : Nat → Option τ → Prop)
    (hfetch : ∀ n i token, Stands i token → i ≤ l.length →
      ∃ next, fetch n token = some ((l.drop i).take k, next) ∧
        (i < l.length → Stands (min (i + k) l.length) next))
    (n i : Nat) (token : Option τ) (hi : i ≤ l.length) (hs : Stands i token)
    (hn : l.length - i < n) : walk fetch n token = some (l.drop i) := by
  -- on the fetches left
  induction n generalizing i token with
  | zero => omega
  | succ n ih =>
      obtain ⟨next, hpage, hnext⟩ := hfetch n i token hs hi
      by_cases hend : i = l.length
      · have hnil : (l.drop i).take k = [] := by simp [hend]
        rw [hnil] at hpage
        rw [walk_of_nil hpage, hend, List.drop_length]
      · have hlt : i < l.length := by omega
        have hne : (l.drop i).take k ≠ [] := by
          rw [← List.length_pos_iff, List.length_take, List.length_drop]
          omega
        have hrest := ih (min (i + k) l.length) next (Nat.min_le_right _ _) (hnext hlt) (by omega)
        rw [walk_of_ne_nil hne hpage, hrest, Option.map_some]
        congr 1
        rcases Nat.le_total (i + k) l.length with hle | hle
        · rw [Nat.min_eq_left hle, ← List.drop_drop, List.take_append_drop]
        · rw [Nat.min_eq_right hle, List.drop_length, List.append_nil,
            List.take_of_length_le (by rw [List.length_drop]; omega)]

/-- **Divergence rule**: a walk that only meets tokens whose page is not empty, or
whose fetch fails, does not end. -/
theorem walk_eq_none (Loops : Option τ → Prop)
    (hfetch : ∀ n token, Loops token → fetch n token = none ∨
      ∃ page next, page ≠ [] ∧ fetch n token = some (page, next) ∧ Loops next)
    (n : Nat) (token : Option τ) (h : Loops token) : walk fetch n token = none := by
  induction n generalizing token with
  | zero => rfl
  | succ n ih =>
      rcases hfetch n token h with hfail | ⟨page, next, hne, hpage, hnext⟩
      · rw [walk, hfail]
      · rw [walk_of_ne_nil hne hpage, ih next hnext]
        rfl

/-- The pages of a walk that ends with the first page that comes without a token, or
`none` when a fetch fails or the fetches run out. -/
def walkPages (fetch : Nat → Option τ → Option (List α × Option τ)) :
    Nat → Option τ → Option (List (List α))
  | 0, _ => none
  | n + 1, token =>
      match fetch n token with
      | none => none
      | some (page, none) => some [page]
      | some (page, some next) => (walkPages fetch n (some next)).map (page :: ·)

theorem walkPages_of_end {n : Nat} {page : List α} (h : fetch n token = some (page, none)) :
    walkPages fetch (n + 1) token = some [page] := by
  rw [walkPages, h]

theorem walkPages_of_next {n : Nat} {page : List α} {next : τ}
    (h : fetch n token = some (page, some next)) :
    walkPages fetch (n + 1) token = (walkPages fetch n (some next)).map (page :: ·) := by
  rw [walkPages, h]

/-- A list in pages of `k` items and one more, empty page: all pages but the last with
items are full, and there are no more than it takes. -/
structure Paginates (k : Nat) (l : List α) (pages : List (List α)) : Prop where
  flatten_eq : pages.flatten = l
  getLast?_eq : pages.getLast? = some []
  ne_nil : ∀ page ∈ pages.dropLast, page ≠ []
  length_eq : ∀ page ∈ pages.dropLast.dropLast, page.length = k
  length_le : pages.length ≤ (l.length + k - 1) / k + 1

theorem paginates_nil (k : Nat) : Paginates k ([] : List α) [[]] where
  flatten_eq := rfl
  getLast?_eq := rfl
  ne_nil := by simp
  length_eq := by simp
  length_le := by simp

/-- A page, and the pages of the rest. -/
theorem Paginates.cons {k : Nat} (hk : 0 < k) {pages : List (List α)} (hl : l ≠ [])
    (h : Paginates k (l.drop k) pages) : Paginates k l (l.take k :: pages) := by
  have hpos : 0 < l.length := List.length_pos_iff.mpr hl
  have hpages : pages ≠ [] := by
    rintro rfl
    cases h.getLast?_eq
  have hpage : l.take k ≠ [] := by
    rw [← List.length_pos_iff, List.length_take]
    omega
  constructor
  · rw [List.flatten_cons, h.flatten_eq, List.take_append_drop]
  · rw [List.getLast?_cons_of_ne_nil hpages]
    exact h.getLast?_eq
  · rw [List.dropLast_cons_of_ne_nil hpages]
    intro page hmem
    cases List.mem_cons.mp hmem with
    | inl heq => exact heq ▸ hpage
    | inr hrest => exact h.ne_nil page hrest
  · rw [List.dropLast_cons_of_ne_nil hpages]
    intro page hmem
    by_cases hlast : pages.dropLast = []
    · simp [hlast] at hmem
    · rw [List.dropLast_cons_of_ne_nil hlast] at hmem
      cases List.mem_cons.mp hmem with
      | inl heq =>
          -- there is a page with items behind it
          have hmore : l.drop k ≠ [] := by
            intro hnil
            obtain ⟨next, hnext⟩ := List.exists_mem_of_ne_nil _ hlast
            have hflat := h.flatten_eq
            rw [hnil, List.flatten_eq_nil_iff] at hflat
            exact h.ne_nil next hnext (hflat next (List.dropLast_subset pages hnext))
          have hlong : 0 < (l.drop k).length := List.length_pos_iff.mpr hmore
          rw [List.length_drop] at hlong
          rw [heq, List.length_take]
          omega
      | inr hrest => exact h.length_eq page hrest
  · have hle := h.length_le
    rw [List.length_drop] at hle
    rw [List.length_cons]
    by_cases hlong : k ≤ l.length
    · have hsplit : l.length + k - 1 = (l.length - k + k - 1) + k := by omega
      rw [hsplit, Nat.add_div_right _ hk]
      omega
    · have hone : (l.length - k + k - 1) / k = 0 := Nat.div_eq_of_lt (by omega)
      have htwo : 1 ≤ (l.length + k - 1) / k := (Nat.le_div_iff_mul_le hk).mpr (by omega)
      omega

/-- **Page rule**: let `Stands i token` say that a token stands for position `i` of a
list.  If such a token fetches the next `k > 0` items, with a token that stands behind
them or, at the end, without one, a walk with as many fetches as it takes gets the pages
of the rest of the list. -/
theorem walkPages_eq {k : Nat} (hk : 0 < k) (Stands : Nat → Option τ → Prop)
    (hfetch : ∀ n i token, Stands i token → i ≤ l.length →
      ∃ next, fetch n token = some ((l.drop i).take k, next) ∧ (i = l.length → next = none) ∧
        (i < l.length → ∃ t, next = some t ∧ Stands (min (i + k) l.length) (some t)))
    (n i : Nat) (token : Option τ) (hi : i ≤ l.length) (hs : Stands i token)
    (hn : (l.length - i + k - 1) / k < n) :
    ∃ pages, walkPages fetch n token = some pages ∧ Paginates k (l.drop i) pages := by
  -- on the fetches left
  induction n generalizing i token with
  | zero => exact absurd hn (Nat.not_lt_zero _)
  | succ n ih =>
      obtain ⟨next, hpage, hend, hnext⟩ := hfetch n i token hs hi
      by_cases hdone : i = l.length
      · have hnil : l.drop i = [] := by simp [hdone]
        rw [hnil, List.take_nil, hend hdone] at hpage
        refine ⟨[[]], walkPages_of_end hpage, ?_⟩
        rw [hnil]
        exact paginates_nil k
      · have hlt : i < l.length := by omega
        obtain ⟨t, rfl, hstands⟩ := hnext hlt
        have hfuel : (l.length - min (i + k) l.length + k - 1) / k < n := by
          rcases Nat.le_total (i + k) l.length with hle | hle
          · have hsplit : l.length - i + k - 1 = (l.length - (i + k) + k - 1) + k := by omega
            rw [hsplit, Nat.add_div_right _ hk] at hn
            rw [Nat.min_eq_left hle]
            omega
          · have hone : 1 ≤ (l.length - i + k - 1) / k := (Nat.le_div_iff_mul_le hk).mpr (by omega)
            rw [Nat.min_eq_right hle, Nat.sub_self, Nat.zero_add, Nat.div_eq_of_lt (by omega)]
            omega
        obtain ⟨pages, hpages, hrest⟩ := ih (min (i + k) l.length) (some t) (Nat.min_le_right _ _)
          hstands hfuel
        have hdrop : l.drop (min (i + k) l.length) = (l.drop i).drop k := by
          rcases Nat.le_total (i + k) l.length with hle | hle
          · rw [Nat.min_eq_left hle, List.drop_drop]
          · rw [Nat.min_eq_right hle, List.drop_length, List.drop_drop, List.drop_eq_nil_of_le hle]
        rw [hdrop] at hrest
        refine ⟨(l.drop i).take k :: pages, by rw [walkPages_of_next hpage, hpages]; rfl, ?_⟩
        exact hrest.cons hk (by simpa using hlt)

/-- A walk that only meets tokens whose fetch fails, or that come with another such
token, does not end. -/
theorem walkPages_eq_none (Loops : Option τ → Prop)
    (hfetch : ∀ n token, Loops token → fetch n token = none ∨
      ∃ page next, fetch n token = some (page, some next) ∧ Loops (some next))
    (n : Nat) (token : Option τ) (h : Loops token) : walkPages fetch n token = none := by
  induction n generalizing token with
  | zero => rfl
  | succ n ih =>
      rcases hfetch n token h with hfail | ⟨page, next, hpage, hnext⟩
      · rw [walkPages, hfail]
      · rw [walkPages_of_next hpage, ih (some next) hnext]
        rfl

end Walk

end Paging
